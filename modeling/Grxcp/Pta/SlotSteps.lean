import Grxcp.Pta.Protocol

/-!
# Taking and ending a slot, as the protocol has it

`Module.queue` is what the protocol sees of a module. Each function that takes a slot, hands it to
the tile or ends it has one lemma that says which of the protocol's steps it is.
-/

namespace Grxcp.PtaModule

open PtaTwin

variable {Dev σ : Type} (h : Host σ) (k : TileKernel Dev)

/-! ## Bytes of a line -/

private theorem getD_setIfInBounds (l : Line) (i j : ℕ) (b : BitVec 8) (hi : i < 64) :
    (l.setIfInBounds i b).getD j 0 = if i = j then b else l.getD j 0 := by
  simp only [Vector.getD, Vector.toArray_setIfInBounds, Array.getD_eq_getD_getElem?,
    Array.getElem?_setIfInBounds]
  split
  · next h =>
    subst h
    simp [hi]
  · rfl

private theorem bytes32 (v : U32) :
    (v.truncate 8).zeroExtend 32 ||| (((v >>> 8).truncate 8).zeroExtend 32 <<< 8) |||
      (((v >>> 16).truncate 8).zeroExtend 32 <<< 16) |||
      (((v >>> 24).truncate 8).zeroExtend 32 <<< 24) = v := by
  ext i hi
  simp only [BitVec.getElem_or, BitVec.getElem_shiftLeft, BitVec.getElem_setWidth,
    BitVec.getLsbD_setWidth, BitVec.truncate_eq_setWidth]
  grind

/-- A word written is the word read. -/
theorem get32_put32_self (l : Line) {p : ℕ} (hp : p + 3 < 64) (v : U32) :
    get32 (put32 l p v) p = v := by
  unfold get32 put32
  simp (disch := omega) only [getD_setIfInBounds, if_neg, if_true]
  exact bytes32 v

/-- A word written leaves the words beside it. -/
theorem get32_put32_of_disjoint (l : Line) {p q : ℕ} (hq : q + 3 < 64)
    (hpq : p + 4 ≤ q ∨ q + 4 ≤ p) (v : U32) : get32 (put32 l q v) p = get32 l p := by
  unfold get32 put32
  simp (disch := omega) only [getD_setIfInBounds]
  simp (disch := omega) only [if_neg]

/-- The module's fields of a record lie above the host's. -/
theorem get32_recordLine (d : Line) (s : RecordStatus) (i : U32) (sats : U64) {p : ℕ}
    (hp : p + 4 ≤ dStatus) : get32 (recordLine d s i sats) p = get32 d p := by
  unfold dStatus at hp
  unfold recordLine put64 dStatus dIndex dSats
  simp (disch := omega) only [get32_put32_of_disjoint]

theorem get32_recordLine_status (d : Line) (s : RecordStatus) (i : U32) (sats : U64) :
    get32 (recordLine d s i sats) dStatus = s.word := by
  unfold recordLine put64 dStatus dIndex dSats
  simp (disch := omega) only [get32_put32_of_disjoint, get32_put32_self]

theorem RecordStatus.word_injective {s s' : RecordStatus} (h : s.word = s'.word) : s = s' := by
  cases s <;> cases s' <;> first | rfl | simp [RecordStatus.word] at h

/-- The result lines a record calls for are those of its descriptor, if it ended done. -/
theorem recordResultAddrs_recordLine (d : Line) (s : RecordStatus) (i : U32) (sats : U64) :
    recordResultAddrs (recordLine d s i sats) =
      if s = .done then
        (List.range (linesOf ((get32 d dM).toNat * (get32 d dN).toNat * 4))).map
          (lineAddr (get64 d dOut))
      else [] := by
  have hout : get64 (recordLine d s i sats) dOut = get64 d dOut := by
    unfold get64
    rw [get32_recordLine d s i sats (by decide), get32_recordLine d s i sats (by decide)]
  unfold recordResultAddrs
  rw [get32_recordLine_status, get32_recordLine d s i sats (by decide),
    get32_recordLine d s i sats (by decide), hout]
  by_cases hs : s = .done
  · rw [if_pos hs, if_pos (by rw [hs])]
  · rw [if_neg hs, if_neg (fun hw => hs (RecordStatus.word_injective hw))]

/-! ## What the protocol sees -/

/-- The slot held. -/
def Inflight.holder (f : Inflight) : Option Holder :=
  if f.live then some ⟨f.n, f.idx, f.orphan, f.status = .pending⟩ else none

/-- The protocol's view of a module. -/
def Module.queue (m : Module Dev σ) : Queue where
  enable := m.enable
  enabled := m.enabled
  sizeLog2 := m.sizeLog2
  slotAddr := m.slotAddr
  head := m.head
  tail := m.tail
  halted := m.halted != 0
  cur := m.cur.holder
  inTile := inTile m.tile
  taken := m.taken
  trace := m.trace

/-- What holds of the data behind the view: the tile's commands are the module's in all their
addresses or in none, and the slot held is what its descriptor says. -/
structure Module.Ok (m : Module Dev σ) : Prop where
  tile : ∀ c ∈ accepted m.tile, c.status = some .status ↔ (ownNumber c).isSome
  cur : m.cur.live = true → m.cur.M = get32 m.cur.desc dM ∧ m.cur.N = get32 m.cur.desc dN ∧
    m.cur.out = get64 m.cur.desc dOut

theorem Module.Ok.congr {m m' : Module Dev σ} (ho : m.Ok) (ht : m'.tile = m.tile)
    (hc : m'.cur = m.cur) : m'.Ok :=
  ⟨ht ▸ ho.tile, hc ▸ ho.cur⟩

/-- From one module to another by steps of the protocol. -/
def Refines (m m' : Module Dev σ) : Prop :=
  m.Ok → m'.Ok ∧ m.queue.Steps m'.queue

theorem Refines.refl (m : Module Dev σ) : Refines m m :=
  fun ho => ⟨ho, .refl⟩

theorem Refines.trans {m m' m'' : Module Dev σ} (h₁ : Refines m m') (h₂ : Refines m' m'') :
    Refines m m'' := by
  intro ho
  obtain ⟨ho', hs⟩ := h₁ ho
  obtain ⟨ho'', hs'⟩ := h₂ ho'
  exact ⟨ho'', hs.trans hs'⟩

theorem Refines.step {m m' : Module Dev σ} (ho : m.Ok → m'.Ok)
    (hs : m.Ok → m.queue.Step m'.queue) : Refines m m' :=
  fun h => ⟨ho h, .single (hs h)⟩

/-! ## The host's calls -/

/-- Only the host moved, and the trace grew. -/
def Moved (m m' : Module Dev σ) (es : List Event) : Prop :=
  ∃ s, m' = { m with host := s, trace := m.trace ++ es }

theorem Moved.refl (m : Module Dev σ) : Moved m m [] :=
  ⟨m.host, by simp⟩

theorem Moved.trans {m m' m'' : Module Dev σ} {es es' : List Event} (h₁ : Moved m m' es)
    (h₂ : Moved m' m'' es') : Moved m m'' (es ++ es') := by
  obtain ⟨s, rfl⟩ := h₁
  obtain ⟨s', rfl⟩ := h₂
  exact ⟨s', by simp⟩

theorem Moved.refines {m m' : Module Dev σ} {es : List Event} (hm : Moved m m' es)
    (hq : ∀ e ∈ es, e.quiet) : Refines m m' := by
  obtain ⟨s, rfl⟩ := hm
  exact .step (fun ho => ho.congr rfl rfl) fun _ => .quiet es hq

theorem readLine_some {m m' : Module Dev σ} {addr : U64} {line : Line}
    (hr : m.readLine h addr = (m', some line)) : Moved m m' [.read addr true] := by
  unfold Module.readLine at hr
  rcases hh : h.readLine m.host addr with ⟨s, o⟩
  rw [hh] at hr
  obtain ⟨rfl, rfl⟩ := Prod.mk.inj hr
  exact ⟨s, rfl⟩

theorem readLine_none {m m' : Module Dev σ} {addr : U64} (hr : m.readLine h addr = (m', none)) :
    Moved m m' [.read addr false] := by
  unfold Module.readLine at hr
  rcases hh : h.readLine m.host addr with ⟨s, o⟩
  rw [hh] at hr
  obtain ⟨rfl, rfl⟩ := Prod.mk.inj hr
  exact ⟨s, rfl⟩

theorem malloc_moved (m : Module Dev σ) : Moved m (m.malloc h).1 [] :=
  ⟨(h.malloc m.host).1, by simp [Module.malloc]⟩

theorem raise_moved (m : Module Dev σ) (v : ℕ) :
    ∃ irq : Bool, Moved m (m.raise h v) (if irq then [.msi v] else []) := by
  unfold Module.raise
  cases h.msi with
  | none => exact ⟨false, .refl m⟩
  | some msi => exact ⟨true, msi m.host v, rfl⟩

/-- The lines read up to one that fails, if one does. -/
def ReadTo (m m' : Module Dev σ) (ok : Bool) : Prop :=
  ∃ es, (∀ e ∈ es, e.quiet) ∧
    if ok then Moved m m' es else ∃ a, Moved m m' (es ++ [.read a false])

theorem readLines_moved (addr : U64) (left : ℕ) :
    ∀ (i : ℕ) (m : Module Dev σ),
      ReadTo m (readLines h addr left i m).1 (readLines h addr left i m).2.isSome := by
  induction left with
  | zero => exact fun i m => ⟨[], by simp, .refl m⟩
  | succ left ih =>
    intro i m
    unfold readLines
    split
    · next m' heq => exact ⟨[], by simp, _, readLine_none h heq⟩
    · next m' line heq =>
      have hm := readLine_some h heq
      obtain ⟨es, hq, hm'⟩ := ih (i + 1) m'
      have hq' : ∀ e ∈ [.read (lineAddr addr i) true] ++ es, e.quiet := by
        simpa [Event.quiet] using hq
      split
      · next heq' =>
        rw [heq'] at hm'
        obtain ⟨a, hm'⟩ := hm'
        exact ⟨_, hq', a, by simpa using hm.trans hm'⟩
      · next heq' =>
        rw [heq'] at hm'
        exact ⟨_, hq', hm.trans hm'⟩

theorem readOperands_moved (addr : U64) (count : ℕ) (m : Module Dev σ) :
    ReadTo m (readOperands h addr count m).1 (readOperands h addr count m).2.isSome := by
  simpa [readOperands] using readLines_moved h addr (linesOf count) 0 m

/-! ## Ending a slot -/

/-- The result lines of a command, from line `i` on. -/
def resultLines (f : Inflight) (left i : ℕ) : List (U64 × Line) :=
  (List.range' i left).map fun i => (lineAddr f.out i, resultLine f.C f.count i)

/-- The lines are written in order, up to the one that fails. -/
theorem writeLines_moved (f : Inflight) (left : ℕ) :
    ∀ (i : ℕ) (m : Module Dev σ),
      ((writeLines h f left i m).2 = true ∧
        Moved m (writeLines h f left i m).1
          ((resultLines f left i).map fun r => .result f.n r.1 r.2 true)) ∨
      ((writeLines h f left i m).2 = false ∧
        ∃ es, CutShort f.n es ∧ Moved m (writeLines h f left i m).1 es) := by
  induction left with
  | zero => exact fun i m => .inl ⟨rfl, .refl m⟩
  | succ left ih =>
    intro i m
    rcases hw : h.writeLine m.host (lineAddr f.out i) (resultLine f.C f.count i) with ⟨s, ok⟩
    simp only [writeLines, hw]
    cases ok with
    | false =>
      refine .inr ⟨rfl, [_], ⟨[], _, rfl, rfl, rfl⟩, s, rfl⟩
    | true =>
      have hm : Moved m ({ m with host := s }.emit
          (.result f.n (lineAddr f.out i) (resultLine f.C f.count i) true)) _ := ⟨s, rfl⟩
      obtain ⟨hb, hm'⟩ | ⟨hb, es, ⟨done, e, rfl, hf, hw'⟩, hm'⟩ := ih (i + 1) _
      · refine .inl ⟨hb, ?_⟩
        simpa [resultLines, List.range'_succ] using hm.trans hm'
      · refine .inr ⟨hb, _, ⟨(lineAddr f.out i, resultLine f.C f.count i) :: done, e, ?_, hf, hw'⟩,
          hm.trans hm'⟩
        simp

/-- A record is written and the head moves past its slot, or the queue halts where it is. -/
theorem record_cases (m : Module Dev σ) (n : ℕ) (idx : U32) (d : Line) (st : RecordStatus)
    (i : U32) (sats : U64) :
    (∃ s, m.record h n idx d st i sats = { m with
        host := s, halted := haltMemory, faultAt := m.head
        trace := m.trace ++ [.record n (m.slotAddr idx) (recordLine d st i sats) false] }) ∨
    (∃ s, ∃ irq : Bool, m.record h n idx d st i sats = { m with
        host := s, head := idx + 1, prev := some st
        trace := m.trace ++ ([.record n (m.slotAddr idx) (recordLine d st i sats) true,
          .head (idx + 1)] ++ (if irq then [.msi 0] else [])) }) := by
  rcases hw : h.writeLine m.host (m.slotAddr idx) (recordLine d st i sats) with ⟨s, ok⟩
  simp only [Module.record, hw]
  cases ok with
  | false => exact .inl ⟨s, rfl⟩
  | true =>
    refine .inr ?_
    rw [if_neg (by simp)]
    split
    · obtain ⟨irq, s', hr⟩ := raise_moved h ({ { m with host := s }.emit
        (.record n (m.slotAddr idx) (recordLine d st i sats) true) with
          head := idx + 1, prev := some st }.emit (.head (idx + 1))) 0
      exact ⟨s', irq, by rw [hr]; simp [Module.emit]⟩
    · exact ⟨s, false, by simp [Module.emit]⟩

theorem halted_ne_zero : (haltMemory != 0) = true ∧ (haltDoorbell != 0) = true := by decide

/-- A record as the end of a slot: the whole of it once the result lines are out, or cut short. -/
private theorem record_step {m : Module Dev σ} {q : Queue} {results : List (U64 × Line)} (n : ℕ)
    (idx : U32) {d : Line} {st : RecordStatus} {i : U32} {sats : U64}
    (hw : results.map (·.1) = recordResultAddrs (recordLine d st i sats)) (es : List Event)
    (hq : m.queue = { q with
      trace := q.trace ++ (es ++ results.map fun r => .result n r.1 r.2 true) }) :
    (∃ es', CutShort n es' ∧ (m.record h n idx d st i sats).queue =
        { q with halted := true, trace := q.trace ++ (es ++ es') }) ∨
      ∃ e : EndedSlot, e.n = n ∧ e.idx = idx ∧ (m.record h n idx d st i sats).queue =
        { q with head := idx + 1, trace := q.trace ++ (es ++ e.events q.slotAddr) } := by
  obtain ⟨s, hr⟩ | ⟨s, irq, hr⟩ := record_cases h m n idx d st i sats
  · refine .inl ⟨_, ⟨results, .record n (m.slotAddr idx) (recordLine d st i sats) false, rfl, rfl,
      rfl⟩, ?_⟩
    have hm : (m.record h n idx d st i sats).queue = { m.queue with
        halted := true
        trace := m.queue.trace ++
          [.record n (m.slotAddr idx) (recordLine d st i sats) false] } := by
      rw [hr]
      rfl
    rw [hm, hq]
    simp
  · refine .inr ⟨⟨n, idx, results, recordLine d st i sats, irq, hw⟩, rfl, rfl, ?_⟩
    have hslot : m.slotAddr = q.slotAddr := congrArg Queue.slotAddr hq
    have hm : (m.record h n idx d st i sats).queue = { m.queue with
        head := idx + 1
        trace := m.queue.trace ++ ([.record n (m.slotAddr idx) (recordLine d st i sats) true,
          .head (idx + 1)] ++ (if irq then [.msi 0] else [])) } := by
      rw [hr]
      rfl
    rw [hm, hq, hslot]
    simp [EndedSlot.events]

/-- A record touches neither the tile nor the slot held. -/
theorem record_frame (m : Module Dev σ) (n : ℕ) (idx : U32) (d : Line) (st : RecordStatus)
    (i : U32) (sats : U64) :
    (m.record h n idx d st i sats).tile = m.tile ∧ (m.record h n idx d st i sats).cur = m.cur := by
  obtain ⟨s, hr⟩ | ⟨s, irq, hr⟩ := record_cases h m n idx d st i sats <;> rw [hr] <;> exact ⟨rfl, rfl⟩

theorem Module.drop_queue (m : Module Dev σ) : m.drop.queue = { m.queue with cur := none } := rfl

/-- The tile has ended the command in flight: it leaves the module as the protocol says. -/
theorem finish_step {m : Module Dev σ} (ho : m.Ok) {c : Holder} (hc : m.queue.cur = some c)
    (hp : c.pending = false) :
    (m.finish h).tile = m.tile ∧ (m.finish h).cur = {} ∧
      FinishStep m.queue c (m.finish h).queue := by
  have hlive : m.cur.live = true := by
    by_contra hl
    simp [Module.queue, Inflight.holder, hl] at hc
  simp only [Module.queue, Inflight.holder, hlive, if_true, Option.some.injEq] at hc
  have hcn : m.cur.n = c.n := by rw [← hc]
  have hci : m.cur.idx = c.idx := by rw [← hc]
  have hco : m.cur.orphan = c.orphan := by rw [← hc]
  have hst : m.cur.status ≠ .pending := by
    rw [← hc] at hp
    simpa using hp
  unfold Module.finish
  rw [if_neg (by simp [hlive, hst])]
  by_cases hor : m.cur.orphan = true
  · rw [if_pos hor]
    exact ⟨rfl, rfl, .orphan (hco ▸ hor)⟩
  rw [if_neg hor]
  have hor : c.orphan = false := by simpa [hco] using hor
  -- a record after no result lines, for a command that is not done
  have hplain : ∀ st : RecordStatus, st ≠ .done →
      (m.record h m.cur.n m.cur.idx m.cur.desc st noIndex 0).drop.tile = m.tile ∧
      FinishStep m.queue c (m.record h m.cur.n m.cur.idx m.cur.desc st noIndex 0).drop.queue := by
    intro st hne
    have hw : ([] : List (U64 × Line)).map (·.1) =
        recordResultAddrs (recordLine m.cur.desc st noIndex 0) := by
      rw [recordResultAddrs_recordLine, if_neg hne]
      rfl
    refine ⟨(record_frame h m _ _ _ _ _ _).1, ?_⟩
    obtain ⟨es, hcut, hr⟩ | ⟨e, hn, hi, hr⟩ :=
      record_step (m := m) (q := m.queue) h m.cur.n m.cur.idx hw [] (by simp)
    · rw [Module.drop_queue, hr]
      exact .failed hor es (hcn ▸ hcut)
    · rw [Module.drop_queue, hr, hci]
      exact .ended hor e (hn.trans hcn) (hi.trans hci)
  cases hs : m.cur.status with simp only
  | pending => exact absurd hs hst
  | refused =>
    obtain ⟨ht, hf⟩ := hplain .refused (by decide)
    exact ⟨ht, rfl, hf⟩
  | lost =>
    obtain ⟨ht, hf⟩ := hplain .lost (by decide)
    exact ⟨ht, rfl, hf⟩
  | done =>
    obtain ⟨hM, hN, hout⟩ := ho.cur hlive
    obtain ⟨hb, hm⟩ | ⟨hb, es, hcut, hm⟩ :=
      writeLines_moved h m.cur (linesOf (m.cur.count * 4)) 0 m
    · rcases hwr : writeResults h m.cur m with ⟨m₁, b⟩
      have hb' : b = true := by
        rw [← hb]
        exact (congrArg Prod.snd hwr).symm
      subst hb'
      have hm : Moved m m₁ _ := (congrArg Prod.fst hwr) ▸ hm
      have hw : (resultLines m.cur (linesOf (m.cur.count * 4)) 0).map (·.1) =
          recordResultAddrs (recordLine m.cur.desc .done m.cur.index
            (BitVec.ofInt 64 m.cur.sats)) := by
        rw [recordResultAddrs_recordLine, if_pos rfl, ← hM, ← hN, ← hout]
        simp [resultLines, Inflight.count, List.range_eq_range', Function.comp_def]
      obtain ⟨s, hmeq⟩ := id hm
      have hframe := record_frame h m₁ m.cur.n m.cur.idx m.cur.desc .done m.cur.index
        (BitVec.ofInt 64 m.cur.sats)
      refine ⟨hframe.1.trans (by rw [hmeq]), rfl, ?_⟩
      obtain ⟨es, hcut, hr⟩ | ⟨e, hn, hi, hr⟩ :=
        record_step (m := m₁) (q := m.queue) h m.cur.n m.cur.idx hw [] (by rw [hmeq]; rfl)
      · rw [Module.drop_queue, hr]
        exact .failed hor es (hcn ▸ hcut)
      · rw [Module.drop_queue, hr, hci]
        exact .ended hor e (hn.trans hcn) (hi.trans hci)
    · rcases hwr : writeResults h m.cur m with ⟨m₁, b⟩
      have hb' : b = false := by
        rw [← hb]
        exact (congrArg Prod.snd hwr).symm
      subst hb'
      have hm₁ : (writeResults h m.cur m).1 = m₁ := congrArg Prod.fst hwr
      obtain ⟨s, hm⟩ := hm
      obtain rfl : m₁ = _ := hm₁.symm.trans hm
      exact ⟨rfl, rfl, .failed hor es (hcn ▸ hcut)⟩

/-! ## The tile -/

/-- A store changes nothing of the slot held but its sums, its saturations and its status. -/
private theorem store_frame (f : Inflight) (s : Store Ptr) :
    f.store s = { f with
      C := (f.store s).C, status := (f.store s).status, sats := (f.store s).sats } := by
  rcases s with ⟨_ | _ | _ | _, _⟩ | ⟨_ | _ | _ | _, _⟩ | _ | ⟨_ | _ | _ | _, _⟩ <;>
    simp only [Inflight.store]
  split <;> rfl

/-- The slot held after any stores. -/
theorem stores_frame (ss : List (Store Ptr)) (f : Inflight) :
    ss.foldl Inflight.store f = { f with
      C := (ss.foldl Inflight.store f).C, status := (ss.foldl Inflight.store f).status
      sats := (ss.foldl Inflight.store f).sats } := by
  induction ss generalizing f with
  | nil => rfl
  | cons s ss ih =>
    rw [List.foldl_cons, ih (f.store s)]
    have hf := store_frame f s
    generalize f.store s = f' at hf
    rw [hf]

/-- The status word after one command's end. -/
theorem ending_status (e : Ending Ptr) (f : Inflight) :
    (e.stores.foldl Inflight.store f).status =
      if e.cmd.status = some .status then e.how.status else f.status := by
  have hkeep : ∀ (ss : List (Store Ptr)) (f : Inflight),
      (∀ s ∈ ss, ∀ p st, s ≠ .status p st) → (ss.foldl Inflight.store f).status = f.status := by
    intro ss
    induction ss with
    | nil => exact fun _ _ => rfl
    | cons s ss ih =>
      intro f hs
      rw [List.foldl_cons, ih _ fun s' h' => hs s' (List.mem_cons_of_mem _ h')]
      have hne := hs s List.mem_cons_self
      rcases s with ⟨_ | _ | _ | _, _⟩ | ⟨_ | _ | _ | _, _⟩ | _ | ⟨p, st⟩ <;>
        simp only [Inflight.store]
      · split <;> rfl
      · exact absurd rfl (hne p st)
  unfold Ending.stores
  rw [List.foldl_append]
  generalize hf' : List.foldl Inflight.store f _ = f'
  have hst : f'.status = f.status := by
    rw [← hf']
    refine hkeep _ f fun s hs p st => ?_
    rintro rfl
    cases hw : e.how <;> simp only [hw] at hs
    all_goals simp at hs
  rw [← hst]
  rcases e.cmd.status with _ | _ | _ | _ | _ <;> simp [Inflight.store]

theorem End.status_ne_pending (how : End) : how.status ≠ .pending := by
  cases how <;> simp [End.status]

/-- The status word stays pending until a command of the module's ends. -/
theorem endings_status (es : List (Ending Ptr)) (f : Inflight) :
    ((es.flatMap Ending.stores).foldl Inflight.store f).status = .pending ↔
      f.status = .pending ∧ ∀ e ∈ es, e.cmd.status ≠ some .status := by
  induction es generalizing f with
  | nil => simp
  | cons e es ih =>
    rw [List.flatMap_cons, List.foldl_append, ih, ending_status]
    by_cases hs : e.cmd.status = some .status
    · simp [hs, End.status_ne_pending]
    · simp [hs]

/-- What an operation of the tile's did, in the protocol's terms: its own commands among those that
ended, and what it holds after. `c` is the command it was given, if it was given one. -/
private theorem tileMoved_queue {m : Module Dev σ} {r : Twin Dev Ptr × List (Ending Ptr)}
    {added : List (Cmd Ptr)}
    (ht : ∀ c ∈ accepted m.tile ++ added, c.status = some .status ↔ (ownNumber c).isSome)
    (hr : accepted m.tile ++ added = endedCmds r.2 ++ accepted r.1) :
    ∃ ended, inTile m.tile ++ added.filterMap ownNumber = ended ++ inTile r.1 ∧
      (m.tileMoved r).cur.holder = m.cur.holder.map (fun c =>
        { c with pending := c.pending && ended.isEmpty }) ∧
      ((m.tileMoved r).cur.status = .pending ↔ m.cur.status = .pending ∧ ended = []) := by
  refine ⟨(endedCmds r.2).filterMap ownNumber, ?_, ?_⟩
  · simp only [inTile, ← List.filterMap_append, hr]
  have hended : (∀ e ∈ r.2, e.cmd.status ≠ some .status) ↔
      (endedCmds r.2).filterMap ownNumber = [] := by
    rw [List.filterMap_eq_nil_iff]
    simp only [endedCmds, List.mem_map, forall_exists_index, and_imp, forall_apply_eq_imp_iff₂]
    refine forall₂_congr fun e he => ?_
    rw [Ne, ht e.cmd (by rw [hr]; simp [endedCmds]; exact .inl ⟨e, he, rfl⟩)]
    simp
  have hst : (m.tileMoved r).cur.status = .pending ↔
      m.cur.status = .pending ∧ (endedCmds r.2).filterMap ownNumber = [] := by
    rw [← hended]
    exact endings_status r.2 m.cur
  refine ⟨?_, hst⟩
  have hf := stores_frame (r.2.flatMap Ending.stores) m.cur
  have hcur : (m.tileMoved r).cur = { m.cur with
    C := (m.tileMoved r).cur.C, status := (m.tileMoved r).cur.status
    sats := (m.tileMoved r).cur.sats } := hf
  unfold Inflight.holder
  rw [hcur]
  dsimp only
  split
  · simp only [Option.map_some, Option.some.injEq, Holder.mk.injEq, true_and]
    rw [Bool.eq_iff_iff]
    simp [hst]
  · rfl

theorem tileMoved_cur_frame (m : Module Dev σ) (r : Twin Dev Ptr × List (Ending Ptr)) :
    (m.tileMoved r).cur.live = m.cur.live ∧ (m.tileMoved r).cur.desc = m.cur.desc ∧
      (m.tileMoved r).cur.M = m.cur.M ∧ (m.tileMoved r).cur.N = m.cur.N ∧
      (m.tileMoved r).cur.out = m.cur.out ∧ (m.tileMoved r).cur.n = m.cur.n ∧
      (m.tileMoved r).cur.idx = m.cur.idx ∧ (m.tileMoved r).cur.orphan = m.cur.orphan := by
  have hcur : (m.tileMoved r).cur = _ := stores_frame (r.2.flatMap Ending.stores) m.cur
  rw [hcur]
  exact ⟨rfl, rfl, rfl, rfl, rfl, rfl, rfl, rfl⟩

/-- After the tile moved, its commands are still the module's in all their addresses or in none. -/
private theorem tileMoved_ok {m : Module Dev σ} {r : Twin Dev Ptr × List (Ending Ptr)}
    {added : List (Cmd Ptr)} (ho : m.Ok)
    (ht : ∀ c ∈ accepted m.tile ++ added, c.status = some .status ↔ (ownNumber c).isSome)
    (hr : accepted m.tile ++ added = endedCmds r.2 ++ accepted r.1) : (m.tileMoved r).Ok := by
  refine ⟨fun c hc => ht c (by rw [hr]; exact List.mem_append_right _ hc), ?_⟩
  obtain ⟨hl, hd, hM, hN, hout, -⟩ := tileMoved_cur_frame m r
  rw [hl, hd, hM, hN, hout]
  exact ho.cur

/-- A tile that was given nothing, or a command of another submitter's, is a step of the tile's. -/
theorem tileMoved_refines {m : Module Dev σ} {r : Twin Dev Ptr × List (Ending Ptr)}
    (added : List (Cmd Ptr)) (hf : ∀ c ∈ added, c.status ≠ some .status ∧ ownNumber c = none)
    (hr : accepted m.tile ++ added = endedCmds r.2 ++ accepted r.1) :
    Refines m (m.tileMoved r) := by
  intro ho
  have ht : ∀ c ∈ accepted m.tile ++ added, c.status = some .status ↔ (ownNumber c).isSome := by
    intro c hc
    obtain hc | hc := List.mem_append.mp hc
    · exact ho.tile c hc
    · simp [hf c hc]
  refine ⟨tileMoved_ok ho ht hr, .single ?_⟩
  obtain ⟨ended, hin, hcur, -⟩ := tileMoved_queue ht hr
  have hnone : added.filterMap ownNumber = [] :=
    List.filterMap_eq_nil_iff.mpr fun c hc => (hf c hc).2
  rw [hnone, List.append_nil] at hin
  have hs := Queue.Step.tile (q := m.queue) ended (inTile r.1) hin
  have hq : (m.tileMoved r).queue = { m.queue with
      inTile := inTile r.1
      cur := m.cur.holder.map fun c => { c with pending := c.pending && ended.isEmpty } } := by
    rw [← hcur]
    rfl
  rw [hq]
  exact hs

/-! ## Taking a slot -/

/-- A slot is being taken: it is counted, and lines were read. -/
private def Taking (m m₁ : Module Dev σ) (reads : List Event) : Prop :=
  (∀ e ∈ reads, e.quiet) ∧ Moved { m with taken := m.taken + 1 } m₁ reads

private theorem Taking.moved {m m₁ m₂ : Module Dev σ} {reads es : List Event}
    (ht : Taking m m₁ reads) (hm : Moved m₁ m₂ es) (hq : ∀ e ∈ es, e.quiet) :
    Taking m m₂ (reads ++ es) := by
  refine ⟨fun e he => ?_, ht.2.trans hm⟩
  obtain he | he := List.mem_append.mp he
  · exact ht.1 e he
  · exact hq e he

private theorem Taking.ok {m m₁ : Module Dev σ} {reads : List Event} (ht : Taking m m₁ reads)
    (ho : m.Ok) : m₁.Ok := by
  obtain ⟨-, s, rfl⟩ := ht
  exact ho.congr rfl rfl

private theorem Taking.halt {m m₁ m₂ : Module Dev σ} {reads es : List Event} {a : U64}
    (ht : Taking m m₁ reads) (hm : Moved m₁ m₂ (es ++ [.read a false])) (hq : ∀ e ∈ es, e.quiet) :
    TakeStep m.queue (m₂.halt haltMemory).queue := by
  obtain ⟨hq', s, rfl⟩ := ht
  obtain ⟨s', rfl⟩ := hm
  have hall : ∀ e ∈ reads ++ es, e.quiet := by
    intro e he
    obtain he | he := List.mem_append.mp he
    · exact hq' e he
    · exact hq e he
  have hs := TakeStep.unread (q := m.queue) (reads ++ es) hall a
  simp only [Module.queue, Module.halt, List.append_assoc] at hs ⊢
  exact hs

/-- A slot that ends as it is taken. -/
private theorem record_takes {m : Module Dev σ} {q : Queue} {reads : List Event}
    (hr : ∀ e ∈ reads, e.quiet) (handed : Bool) {st : RecordStatus} (hst : st ≠ .done) (d : Line)
    (hm : m.queue = { q with
      taken := q.taken + 1
      trace := q.trace ++ (reads ++ if handed then [.handed q.taken q.inTile] else []) }) :
    TakeStep q (m.record h q.taken q.head d st noIndex 0).queue := by
  have hw : ([] : List (U64 × Line)).map (·.1) = recordResultAddrs (recordLine d st noIndex 0) := by
    rw [recordResultAddrs_recordLine, if_neg hst]
    rfl
  obtain ⟨es, hcut, hq⟩ | ⟨e, hn, hi, hq⟩ :=
    record_step (q := { q with taken := q.taken + 1 }) h q.taken q.head hw
      (reads ++ if handed then [.handed q.taken q.inTile] else []) (hm.trans (by simp))
  · rw [hq]
    exact .failed reads hr handed es hcut
  · rw [hq]
    exact .ended reads hr handed e hn hi

private theorem Taking.record {m m₁ : Module Dev σ} {reads : List Event} {st : RecordStatus}
    (ht : Taking m m₁ reads) (hst : st ≠ .done) (d : Line) :
    TakeStep m.queue (m₁.record h m.taken m.head d st noIndex 0).queue := by
  obtain ⟨hq, s, rfl⟩ := ht
  exact record_takes h (q := m.queue) hq false hst d (by simp [Module.queue]; rfl)

/-- The module's own command, as the tile copies it. -/
theorem ownNumber_tileCmd (d : Line) (n : ℕ) (A B : List ℤ) :
    ownNumber (copyCmd (tileCmd d n A B)) = some n ∧
      (copyCmd (tileCmd d n A B)).status = some .status := ⟨rfl, rfl⟩

/-- The slot filled in, its command accepted by the tile: it is held, pending unless the tile refused
it at once. -/
private theorem submitted_queue {m : Module Dev σ} {r : Twin Dev Ptr × List (Ending Ptr)}
    {c : Cmd Ptr} {n : ℕ} (htile : ∀ c ∈ accepted m.tile, c.status = some .status ↔ (ownNumber c).isSome)
    (hc : ownNumber c = some n ∧ c.status = some .status)
    (hr : accepted m.tile ++ [c] = endedCmds r.2 ++ accepted r.1)
    (hst : m.cur.status = .pending) (hor : m.cur.orphan = false)
    (hd : m.cur.M = get32 m.cur.desc dM ∧ m.cur.N = get32 m.cur.desc dN ∧
      m.cur.out = get64 m.cur.desc dOut) :
    ({ m.tileMoved r with cur := { (m.tileMoved r).cur with live := true } } : Module Dev σ).Ok ∧
      ∃ ended inTile', inTile m.tile ++ [n] = ended ++ inTile' ∧
        ({ m.tileMoved r with cur := { (m.tileMoved r).cur with live := true } } :
          Module Dev σ).queue = { m.queue with
            cur := some ⟨m.cur.n, m.cur.idx, false, ended.isEmpty⟩, inTile := inTile' } := by
  have ht : ∀ c' ∈ accepted m.tile ++ [c], c'.status = some .status ↔ (ownNumber c').isSome := by
    intro c' hc'
    obtain hc' | hc' := List.mem_append.mp hc'
    · exact htile c' hc'
    · rw [List.mem_singleton.mp hc']
      simp [hc]
  obtain ⟨-, hdesc, hM, hN, hout, hn, hi, ho⟩ := tileMoved_cur_frame m r
  obtain ⟨ended, hin, -, hs⟩ := tileMoved_queue ht hr
  refine ⟨⟨fun c' hc' => ht c' (by rw [hr]; exact List.mem_append_right _ hc'), fun _ => ?_⟩,
    ended, inTile r.1, by simpa [hc.1] using hin, ?_⟩
  · show (m.tileMoved r).cur.M = _ ∧ (m.tileMoved r).cur.N = _ ∧ (m.tileMoved r).cur.out = _
    rw [hM, hN, hout, hd.1, hd.2.1, hd.2.2]
    show _ = get32 (m.tileMoved r).cur.desc dM ∧ _ = get32 (m.tileMoved r).cur.desc dN ∧
      _ = get64 (m.tileMoved r).cur.desc dOut
    rw [hdesc]
    exact ⟨rfl, rfl, rfl⟩
  · have hp : decide ((m.tileMoved r).cur.status = .pending) = ended.isEmpty := by
      rw [Bool.eq_iff_iff]
      simp [hs, hst]
    have hh : ({ (m.tileMoved r).cur with live := true } : Inflight).holder =
        some ⟨m.cur.n, m.cur.idx, false, ended.isEmpty⟩ := by
      simp only [Inflight.holder, if_true, hn, hi, ho, hor, hp]
    rw [← hh]
    rfl

/-- A slot handed to the tile. -/
private theorem Taking.submit {m m₁ : Module Dev σ} {reads : List Event}
    (ht : Taking m m₁ reads) (ho : m.Ok) (hc : m.cur.live = false) (d : Line) (A B : List ℤ) :
    (m₁.submit h k m.taken m.head d A B).Ok ∧
      TakeStep m.queue (m₁.submit h k m.taken m.head d A B).queue := by
  obtain ⟨hq, s, rfl⟩ := ht
  rcases hrd : read32 m.tile 0x018 with ⟨tile, index⟩
  have hacc : accepted tile = accepted m.tile := by
    rw [← read32_accepted m.tile 0x018, hrd]
  have hin : inTile tile = inTile m.tile := congrArg (List.filterMap ownNumber) hacc
  rcases hsub : PtaTwin.submit k tile (tileCmd d m.taken A B) with ⟨ok, r⟩
  simp only [Module.submit, hrd, hsub]
  cases ok with
  | false =>
    obtain ⟨hes, hsame⟩ := submit_refused (k := k) (t := tile) (c := tileCmd d m.taken A B)
      (by rw [hsub])
    rw [hsub] at hes hsame
    have hacc' : accepted r.1 = accepted m.tile := hsame.accepted.trans hacc
    have hin' : inTile r.1 = inTile m.tile := congrArg (List.filterMap ownNumber) hacc'
    rw [if_neg (by simp)]
    refine ⟨⟨?_, ?_⟩, record_takes h (q := m.queue) hq true (by decide) d ?_⟩
    · rw [(record_frame h _ _ _ _ _ _ _).1]
      exact fun c hc => ho.tile c (hacc' ▸ hc)
    · rw [(record_frame h _ _ _ _ _ _ _).2]
      simp [Module.drop]
    · rw [Module.drop_queue]
      simp only [Module.queue, Module.tileMoved, Module.emit, hin, hin', Inflight.holder, hc]
      simp
      rfl
  | true =>
    rw [if_pos rfl]
    have hcons := submit_conserves (k := k) (t := tile) (c := tileCmd d m.taken A B) (by rw [hsub])
    rw [hsub] at hcons
    generalize hm₂ : Module.emit _ (.handed m.taken (inTile tile)) = m₂
    have htile : m₂.tile = tile := by rw [← hm₂]; rfl
    obtain ⟨hok, ended, inTile', hsplit, hqueue⟩ :=
      submitted_queue (m := m₂) (r := r) (n := m.taken)
        (by rw [htile, hacc]; exact ho.tile) (ownNumber_tileCmd d m.taken A B)
        (by rw [htile]; exact hcons) (by rw [← hm₂]; rfl) (by rw [← hm₂]; rfl)
        (by rw [← hm₂]; exact ⟨rfl, rfl, rfl⟩)
    refine ⟨hok, ?_⟩
    rw [hqueue]
    rw [htile, hin] at hsplit
    have hheld := TakeStep.held (q := m.queue) reads hq ended inTile' hsplit
    subst hm₂
    simp only [Module.queue, Module.emit, List.append_assoc, hin]
    exact hheld

/-- Taking a slot is one step of the protocol's. -/
theorem take_step {m : Module Dev σ} (ho : m.Ok) (hc : m.cur.live = false) :
    (m.take h k).Ok ∧ TakeStep m.queue (m.take h k).queue := by
  -- a record or a halt leaves the tile and the slot held as they were
  have hrecord : ∀ {m₁ : Module Dev σ} {reads : List Event} {st : RecordStatus} (d : Line),
      Taking m m₁ reads → st ≠ .done → (m₁.record h m.taken m.head d st noIndex 0).Ok ∧
        TakeStep m.queue (m₁.record h m.taken m.head d st noIndex 0).queue := by
    intro m₁ reads st d ht hst
    obtain ⟨h₁, h₂⟩ := record_frame h m₁ m.taken m.head d st noIndex 0
    exact ⟨(ht.ok ho).congr h₁ h₂, ht.record h hst d⟩
  have hhalt : ∀ {m₁ m₂ : Module Dev σ} {reads : List Event} {a : U64}, Taking m m₁ reads →
      ∀ es, Moved m₁ m₂ (es ++ [.read a false]) → (∀ e ∈ es, e.quiet) →
      (m₂.halt haltMemory).Ok ∧ TakeStep m.queue (m₂.halt haltMemory).queue := by
    intro m₁ m₂ reads a ht es hm hq
    obtain ⟨s, hm'⟩ := id hm
    exact ⟨(ht.ok ho).congr (by rw [hm']; rfl) (by rw [hm']; rfl), ht.halt hm hq⟩
  unfold Module.take
  dsimp only
  have ht₀ : Taking m { m with taken := m.taken + 1 } [] := ⟨by simp, .refl _⟩
  split
  · next m₁ heq => exact hhalt ht₀ [] (readLine_none h heq) (by simp)
  next m₁ d heq =>
  have ht₁ := ht₀.moved (readLine_some h heq) (by simp [Event.quiet])
  split
  · exact hrecord d ht₁ (by decide)
  split
  · exact hrecord d ht₁ (by decide)
  have ht₂ := ht₁.moved (malloc_moved h m₁) (by simp)
  have ht₃ := ht₂.moved (malloc_moved h (m₁.malloc h).1) (by simp)
  have ht₄ := ht₃.moved (malloc_moved h ((m₁.malloc h).1.malloc h).1) (by simp)
  split
  · exact hrecord d ht₄ (by decide)
  generalize (((m₁.malloc h).1.malloc h).1.malloc h).1 = m₂ at ht₄
  obtain ⟨es, hq, hm⟩ := readOperands_moved h (get64 d dWgt)
    ((get32 d dK).toNat * (get32 d dN).toNat) m₂
  split
  · next m₃ heq =>
    rw [heq] at hm
    obtain ⟨a, hm⟩ := hm
    exact hhalt ht₄ es hm hq
  next m₃ B heq =>
  rw [heq] at hm
  have ht₅ := ht₄.moved hm hq
  obtain ⟨es', hq', hm'⟩ := readOperands_moved h (get64 d dAct)
    ((get32 d dM).toNat * (get32 d dK).toNat) m₃
  split
  · next m₄ heq =>
    rw [heq] at hm'
    obtain ⟨a, hm'⟩ := hm'
    exact hhalt ht₅ es' hm' hq'
  next m₄ A heq =>
  rw [heq] at hm'
  exact (ht₅.moved hm' hq').submit h k ho hc d A B

end Grxcp.PtaModule
