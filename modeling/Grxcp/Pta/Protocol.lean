import Grxcp.Lib.Runs
import Grxcp.Pta.Module

/-!
# The queue as a protocol

What the module is for, without the bytes: a ring between `head` and `tail`, at most one slot held,
and a trace of what the host sees. The steps below are all there is to it, and the invariants of the
protocol are proved from the steps. `ModuleSteps.lean` shows that every call of the module is a
sequence of these steps.
-/

namespace Grxcp.PtaModule

/-! ## The trace -/

/-- The events that are no part of ending a slot: lines read, and vector 1. -/
def Event.quiet : Event → Bool
  | .read _ ok => ok
  | .msi v => v != 0
  | _ => false

/-- The events of ending slots: result lines, records, moves of the head and vector 0. -/
def Event.ofSlot : Event → Bool
  | .result .. => true
  | .record .. => true
  | .head _ => true
  | .msi v => v == 0
  | _ => false

/-- The queue's own switches, which begin and end a session. -/
def Event.switch : Event → Bool
  | .enable _ => true
  | .disable => true
  | .reset => true
  | _ => false

/-- The number of the slot a line written belongs to. -/
def Event.writer : Event → Option ℕ
  | .result n .. => some n
  | .record n .. => some n
  | _ => none

/-- The lines written, or tried. -/
def Event.failed : Event → Bool
  | .result _ _ _ ok => !ok
  | .record _ _ _ ok => !ok
  | _ => false

/-- One event's part in `session`. -/
def sessionStep : Option (U32 × List Event) → Event → Option (U32 × List Event)
  | _, .enable h => some (h, [])
  | _, .disable => none
  | _, .reset => none
  | s, e => s.map fun (h, es) => (h, es ++ [e])

/-- The events since the queue was enabled, with the index it was enabled at. -/
def session (trace : List Event) : Option (U32 × List Event) :=
  trace.foldl sessionStep none

/-- The address of result line `i` of a record, from the record's own fields. -/
def recordResultAddrs (line : Line) : List U64 :=
  if get32 line dStatus = RecordStatus.done.word then
    (List.range (linesOf ((get32 line dM).toNat * (get32 line dN).toNat * 4))).map
      (lineAddr (get64 line dOut))
  else []

/-- A slot that was ended: its number and index, its result lines, its record, and whether vector 0
was raised. The lines are those the record calls for. -/
structure EndedSlot where
  n : ℕ
  idx : U32
  results : List (U64 × Line)
  line : Line
  irq : Bool
  whole : results.map (·.1) = recordResultAddrs line

/-- What the host sees of a slot's end, in order. -/
def EndedSlot.events (slotAddr : U32 → U64) (e : EndedSlot) : List Event :=
  e.results.map (fun r => .result e.n r.1 r.2 true) ++
    [.record e.n (slotAddr e.idx) e.line true, .head (e.idx + 1)] ++
    (if e.irq then [.msi 0] else [])

/-- A slot's end that a failed write cut short: lines written, then one that was not. -/
def CutShort (n : ℕ) (es : List Event) : Prop :=
  ∃ (done : List (U64 × Line)) (e : Event),
    es = done.map (fun r => .result n r.1 r.2 true) ++ [e] ∧ e.failed ∧ e.writer = some n

/-! ## The protocol's state and steps -/

/-- The slot held: in the tile, or dropped by a teardown and still there. -/
structure Holder where
  n : ℕ
  idx : U32
  orphan : Bool
  pending : Bool
deriving DecidableEq

/-- The queue, as the protocol sees it. -/
structure Queue where
  enable : Bool
  enabled : Bool
  sizeLog2 : U32
  slotAddr : U32 → U64
  head : U32
  tail : U32
  halted : Bool
  cur : Option Holder
  inTile : List ℕ
  taken : ℕ
  trace : List Event

/-- A slot being taken. Lines are read first, whatever follows. -/
inductive TakeStep (q : Queue) : Queue → Prop
  | unread (reads : List Event) (hr : ∀ e ∈ reads, e.quiet) (addr : U64) :
      TakeStep q { q with
        halted := true
        taken := q.taken + 1
        trace := q.trace ++ (reads ++ [.read addr false]) }
  | ended (reads : List Event) (hr : ∀ e ∈ reads, e.quiet) (handed : Bool) (e : EndedSlot)
      (hn : e.n = q.taken) (hi : e.idx = q.head) :
      TakeStep q { q with
        head := q.head + 1
        taken := q.taken + 1
        trace := q.trace ++ (reads ++ (if handed then [.handed q.taken q.inTile] else []) ++
          e.events q.slotAddr) }
  | failed (reads : List Event) (hr : ∀ e ∈ reads, e.quiet) (handed : Bool) (es : List Event)
      (he : CutShort q.taken es) :
      TakeStep q { q with
        halted := true
        taken := q.taken + 1
        trace := q.trace ++ (reads ++ (if handed then [.handed q.taken q.inTile] else []) ++ es) }
  | held (reads : List Event) (hr : ∀ e ∈ reads, e.quiet) (ended inTile : List ℕ)
      (ht : q.inTile ++ [q.taken] = ended ++ inTile) :
      TakeStep q { q with
        cur := some ⟨q.taken, q.head, false, ended.isEmpty⟩
        inTile := inTile
        taken := q.taken + 1
        trace := q.trace ++ (reads ++ [.handed q.taken q.inTile]) }

/-- The slot held leaving the module. -/
inductive FinishStep (q : Queue) (c : Holder) : Queue → Prop
  | orphan (h : c.orphan = true) : FinishStep q c { q with cur := none }
  | ended (h : c.orphan = false) (e : EndedSlot) (hn : e.n = c.n) (hi : e.idx = c.idx) :
      FinishStep q c { q with
        head := c.idx + 1
        cur := none
        trace := q.trace ++ e.events q.slotAddr }
  | failed (h : c.orphan = false) (es : List Event) (he : CutShort c.n es) :
      FinishStep q c { q with halted := true, cur := none, trace := q.trace ++ es }

/-- A slot is taken only by an enabled queue that is not halted, holds none and has one left. -/
def Queue.Takes (q : Queue) : Prop :=
  q.enable = true ∧ q.halted = false ∧ q.cur = none ∧ q.head ≠ q.tail

/-- Whether a doorbell is taken, as the module tests it. -/
def Queue.TakesBell (q : Queue) (v : U32) : Prop :=
  ¬((1 : U32) <<< q.sizeLog2.toNat < v - q.head ∨ 0x80000000 < v - q.tail)

/-- A step of the protocol. -/
inductive Queue.Step (q : Queue) : Queue → Prop
  | quiet (es : List Event) (h : ∀ e ∈ es, e.quiet) : Step q { q with trace := q.trace ++ es }
  | take (h : q.Takes) (q' : Queue) (hs : TakeStep q q') : Step q q'
  | finish (c : Holder) (h : q.cur = some c) (hp : c.pending = false) (q' : Queue)
      (hs : FinishStep q c q') : Step q q'
  | tile (ended inTile : List ℕ) (h : q.inTile = ended ++ inTile) :
      Step q { q with
        inTile := inTile
        cur := q.cur.map fun c => { c with pending := c.pending && ended.isEmpty } }
  | enable (h : q.enable = false) :
      Step q { q with
        enable := true, enabled := true, head := q.tail, halted := false
        trace := q.trace ++ [.enable q.tail] }
  | disable (h : q.enable = true) :
      Step q { q with
        enable := false, enabled := false
        cur := q.cur.map fun c => { c with orphan := true }
        trace := q.trace ++ [.disable] }
  | program (h : q.enable = false) (sizeLog2 : U32) (hs : sizeLog2 = q.sizeLog2 ∨ sizeLog2 ≤ 10)
      (slotAddr : U32 → U64) (tail : U32) :
      Step q { q with sizeLog2 := sizeLog2, slotAddr := slotAddr, tail := tail }
  | bell (h : q.enable = true) (v : U32) (hv : q.TakesBell v) : Step q { q with tail := v }
  | halt : Step q { q with halted := true }
  | reset (slotAddr : U32 → U64) :
      Step q { q with
        enable := false, enabled := false, sizeLog2 := 0, slotAddr := slotAddr, head := 0, tail := 0
        halted := false, cur := none, inTile := [], trace := q.trace ++ [.reset] }

/-- Any number of steps. -/
abbrev Queue.Steps : Queue → Queue → Prop :=
  Relation.ReflTransGen Queue.Step

/-! ## Sessions -/

theorem session_append (tr es : List Event) :
    session (tr ++ es) = es.foldl sessionStep (session tr) :=
  List.foldl_append

/-- Events other than the queue's own switches join the session there is. -/
theorem foldl_sessionStep {es : List Event} (h : ∀ e ∈ es, e.switch = false) (first : U32)
    (es₀ : List Event) :
    es.foldl sessionStep (some (first, es₀)) = some (first, es₀ ++ es) := by
  induction es generalizing es₀ with
  | nil => simp
  | cons e es ih =>
    have he := h e List.mem_cons_self
    have hstep : sessionStep (some (first, es₀)) e = some (first, es₀ ++ [e]) := by
      clear ih h
      cases e <;> first | rfl | cases he
    rw [List.foldl_cons, hstep, ih fun e' h' => h e' (List.mem_cons_of_mem _ h')]
    simp

theorem Event.quiet.switch {e : Event} (h : e.quiet) : e.switch = false := by
  cases e <;> first | rfl | cases h

theorem Event.ofSlot.switch {e : Event} (h : e.ofSlot) : e.switch = false := by
  cases e <;> first | rfl | cases h

theorem Event.quiet.ofSlot {e : Event} (h : e.quiet) : e.ofSlot = false := by
  cases e <;> simp_all [Event.quiet, Event.ofSlot]

theorem EndedSlot.events_ofSlot (slotAddr : U32 → U64) (e : EndedSlot) :
    ∀ x ∈ e.events slotAddr, x.ofSlot := by
  intro x hx
  simp only [EndedSlot.events, List.mem_append, List.mem_map] at hx
  obtain (⟨r, -, rfl⟩ | hx) | hx := hx
  · rfl
  · simp only [List.mem_cons, List.not_mem_nil, or_false] at hx
    obtain rfl | rfl := hx <;> rfl
  · split at hx
    · simp only [List.mem_singleton] at hx
      subst hx
      rfl
    · simp at hx

theorem CutShort.ofSlot {n : ℕ} {es : List Event} (h : CutShort n es) : ∀ x ∈ es, x.ofSlot := by
  obtain ⟨done, e, rfl, hf, -⟩ := h
  intro x hx
  simp only [List.mem_append, List.mem_map, List.mem_singleton] at hx
  obtain ⟨r, -, rfl⟩ | rfl := hx
  · rfl
  · cases x <;> simp_all [Event.failed, Event.ofSlot]

theorem EndedSlot.writer_events (slotAddr : U32 → U64) (e : EndedSlot) :
    ∀ x ∈ e.events slotAddr, ∀ n, x.writer = some n → n = e.n := by
  intro x hx n hn
  simp only [EndedSlot.events, List.mem_append, List.mem_map] at hx
  obtain (⟨r, -, rfl⟩ | hx) | hx := hx
  · exact (Option.some.inj hn).symm
  · simp only [List.mem_cons, List.not_mem_nil, or_false] at hx
    obtain rfl | rfl := hx
    · exact (Option.some.inj hn).symm
    · simp [Event.writer] at hn
  · split at hx
    · simp only [List.mem_singleton] at hx
      subst hx
      simp [Event.writer] at hn
    · simp at hx

theorem CutShort.writer {n : ℕ} {es : List Event} (h : CutShort n es) :
    ∀ x ∈ es, ∀ n', x.writer = some n' → n' = n := by
  obtain ⟨done, e, rfl, -, hw⟩ := h
  intro x hx n' hn
  simp only [List.mem_append, List.mem_map, List.mem_singleton] at hx
  obtain ⟨r, -, rfl⟩ | rfl := hx
  · exact (Option.some.inj hn).symm
  · rw [hw] at hn
    exact (Option.some.inj hn).symm

theorem quiet_writer {e : Event} (h : e.quiet) : e.writer = none := by
  cases e <;> simp_all [Event.quiet, Event.writer]

/-- The lines read before a slot's end, and the command handed over, are no part of it. -/
theorem filter_before {reads : List Event} (hr : ∀ e ∈ reads, e.quiet) (handed : Bool)
    (n : ℕ) (l : List ℕ) :
    (reads ++ (if handed then [Event.handed n l] else [])).filter Event.ofSlot = [] := by
  rw [List.filter_eq_nil_iff]
  intro e he
  simp only [List.mem_append] at he
  obtain he | he := he
  · simp [Event.quiet.ofSlot (hr e he)]
  · split at he
    · simp only [List.mem_singleton] at he
      subst he
      simp [Event.ofSlot]
    · simp at he

/-! ## The invariant -/

/-- A ring has at most `2 ^ 10` slots. -/
theorem ringSize_le {sizeLog2 : U32} (h : sizeLog2 ≤ 10) : (1 : U32) <<< sizeLog2.toNat ≤ 1024 := by
  have hn : sizeLog2.toNat ≤ 10 := by simpa [BitVec.le_def] using h
  interval_cases sizeLog2.toNat <;> decide

/-- What the host has seen since the queue was enabled: whole ends of consecutive slots, in order,
from the index the queue was enabled at up to the head; then at most one end cut short, after which
the queue is halted and holds no slot it could end. A line that could not be read halts it too. -/
structure Queue.Ordered (q : Queue) (first : U32) (es : List Event) (ended : List EndedSlot)
    (rest : List Event) : Prop where
  session : session q.trace = some (first, es)
  events : es.filter Event.ofSlot = ended.flatMap (EndedSlot.events q.slotAddr) ++ rest
  idx : ended.map (·.idx) = (List.range ended.length).map fun i => first + BitVec.ofNat 32 i
  head : q.head = first + BitVec.ofNat 32 ended.length
  rest : rest = [] ∨
    (∃ n, CutShort n rest) ∧ q.halted = true ∧ ∀ c, q.cur = some c → c.orphan = true
  unread : ∀ a, Event.read a false ∈ es → q.halted = true

/-- The invariant of the protocol. -/
structure Queue.Inv (q : Queue) : Prop where
  ring : q.sizeLog2 ≤ 10
  bound : q.enable = true → q.tail - q.head ≤ (1 : U32) <<< q.sizeLog2.toNat
  held : ∀ c, q.cur = some c → c.orphan = false →
    q.enable = true ∧ c.idx = q.head ∧ q.head ≠ q.tail
  status : q.enabled = q.enable
  tile : q.inTile = match q.cur with
    | some c => if c.pending then [c.n] else []
    | none => []
  alone : ∀ n l, Event.handed n l ∈ q.trace → l = []
  order : q.enable = true → ∃ first es ended rest, q.Ordered first es ended rest

/-- More of the session, none of it about ending slots. -/
theorem Queue.Ordered.extend {q q' : Queue} {first : U32} {es : List Event}
    {ended : List EndedSlot} {rest : List Event} (h : q.Ordered first es ended rest)
    (es' : List Event) (ht : q'.trace = q.trace ++ es')
    (hes : ∀ e ∈ es', e.switch = false)
    (hno : es'.filter Event.ofSlot = []) (hs : q'.slotAddr = q.slotAddr) (hh : q'.head = q.head)
    (hr : rest = [] ∨ (q'.halted = true ∧ ∀ c, q'.cur = some c → c.orphan = true))
    (hhalt : q.halted = true → q'.halted = true)
    (hun : ∀ a, Event.read a false ∈ es' → q'.halted = true) :
    q'.Ordered first (es ++ es') ended rest where
  session := by rw [ht, session_append, h.session, foldl_sessionStep hes]
  events := by rw [List.filter_append, hno, List.append_nil, h.events, hs]
  idx := h.idx
  head := hh ▸ h.head
  rest := by
    obtain hr | hr := hr
    · exact .inl hr
    · obtain h0 | ⟨hc, -⟩ := h.rest
      · exact .inl h0
      · exact .inr ⟨hc, hr⟩
  unread := by
    intro a ha
    obtain ha | ha := List.mem_append.mp ha
    · exact hhalt (h.unread a ha)
    · exact hun a ha

/-- One more slot ended at the head. -/
theorem Queue.Ordered.ended {q q' : Queue} {first : U32} {es : List Event}
    {ended : List EndedSlot} {rest : List Event} (h : q.Ordered first es ended rest)
    (hrest : rest = []) (e : EndedSlot) (hi : e.idx = q.head) (es' : List Event)
    (ht : q'.trace = q.trace ++ (es' ++ e.events q.slotAddr))
    (hes : ∀ e ∈ es', e.switch = false)
    (hno : es'.filter Event.ofSlot = []) (hs : q'.slotAddr = q.slotAddr)
    (hh : q'.head = q.head + 1) (hhalt : q'.halted = q.halted)
    (hun : ∀ a, Event.read a false ∉ es') :
    q'.Ordered first (es ++ (es' ++ e.events q.slotAddr)) (ended ++ [e]) [] where
  session := by
    rw [ht, session_append, h.session, foldl_sessionStep]
    intro x hx
    obtain hx | hx := List.mem_append.mp hx
    · exact hes x hx
    · exact Event.ofSlot.switch (e.events_ofSlot _ x hx)
  events := by
    rw [List.filter_append, List.filter_append, hno, h.events, hs, hrest,
      List.filter_eq_self.mpr (e.events_ofSlot _)]
    simp
  idx := by
    rw [List.map_append, h.idx, List.length_append, List.length_singleton, List.range_succ,
      List.map_append, List.map_singleton, List.map_singleton, hi, h.head]
  head := by
    rw [hh, h.head, List.length_append, List.length_singleton, BitVec.ofNat_add]
    exact BitVec.add_assoc ..
  rest := .inl rfl
  unread := by
    intro a ha
    rw [hhalt]
    obtain ha | ha := List.mem_append.mp ha
    · exact h.unread a ha
    · obtain ha | ha := List.mem_append.mp ha
      · exact absurd ha (hun a)
      · exact absurd (e.events_ofSlot _ _ ha) (by simp [Event.ofSlot])

/-- A slot's end cut short, with the queue halted by it. -/
theorem Queue.Ordered.cutShort {q q' : Queue} {first : U32} {es : List Event}
    {ended : List EndedSlot} {rest : List Event} (h : q.Ordered first es ended rest)
    (hrest : rest = []) {n : ℕ} {cut : List Event} (hc : CutShort n cut) (es' : List Event)
    (ht : q'.trace = q.trace ++ (es' ++ cut))
    (hes : ∀ e ∈ es', e.switch = false)
    (hno : es'.filter Event.ofSlot = []) (hs : q'.slotAddr = q.slotAddr) (hh : q'.head = q.head)
    (hr : q'.halted = true ∧ ∀ c, q'.cur = some c → c.orphan = true) :
    q'.Ordered first (es ++ (es' ++ cut)) ended cut where
  session := by
    rw [ht, session_append, h.session, foldl_sessionStep]
    intro x hx
    obtain hx | hx := List.mem_append.mp hx
    · exact hes x hx
    · exact Event.ofSlot.switch (hc.ofSlot x hx)
  events := by
    rw [List.filter_append, List.filter_append, hno, h.events, hs, hrest,
      List.filter_eq_self.mpr hc.ofSlot]
    simp
  idx := h.idx
  head := hh ▸ h.head
  rest := .inr ⟨⟨n, hc⟩, hr⟩
  unread := fun _ _ => hr.1

/-- While a slot could still be ended, none was cut short. -/
theorem Queue.Ordered.rest_eq_nil {q : Queue} {first : U32} {es : List Event}
    {ended : List EndedSlot} {rest : List Event} (h : q.Ordered first es ended rest)
    (hq : q.halted = false ∨ ∃ c, q.cur = some c ∧ c.orphan = false) : rest = [] := by
  obtain h0 | ⟨-, hh, hc⟩ := h.rest
  · exact h0
  · obtain hq | ⟨c, hc', ho⟩ := hq
    · simp [hq] at hh
    · simp [hc c hc'] at ho

private theorem switch_before {reads : List Event} (hr : ∀ e ∈ reads, e.quiet) (handed : Bool)
    (n : ℕ) (l : List ℕ) :
    ∀ e ∈ reads ++ (if handed then [Event.handed n l] else []), e.switch = false := by
  intro e he
  obtain he | he := List.mem_append.mp he
  · exact Event.quiet.switch (hr e he)
  · split at he
    · rw [List.mem_singleton.mp he]
      rfl
    · simp at he

private theorem unread_before {reads : List Event} (hr : ∀ e ∈ reads, e.quiet) (handed : Bool)
    (n : ℕ) (l : List ℕ) (a : U64) :
    Event.read a false ∉ reads ++ (if handed then [Event.handed n l] else []) := by
  intro he
  obtain he | he := List.mem_append.mp he
  · simpa [Event.quiet] using hr _ he
  · split at he <;> simp at he

private theorem handed_of_mem {tr es : List Event} {n : ℕ} {l : List ℕ}
    (h : Event.handed n l ∈ tr ++ es) (hes : ∀ e ∈ es, e.quiet ∨ e.ofSlot) :
    Event.handed n l ∈ tr := by
  obtain h | h := List.mem_append.mp h
  · exact h
  · obtain h | h := hes _ h <;> simp [Event.quiet, Event.ofSlot] at h

private theorem handed_before {tr reads : List Event} (es : List Event)
    (hr : ∀ e ∈ reads, e.quiet) (hes : ∀ e ∈ es, e.ofSlot) (handed : Bool) {m n : ℕ}
    {l t : List ℕ} (ht : t = [])
    (htr : ∀ n l, Event.handed n l ∈ tr → l = [])
    (h : Event.handed n l ∈
      tr ++ (reads ++ (if handed then [Event.handed m t] else []) ++ es)) : l = [] := by
  rw [← List.append_assoc] at h
  have h := handed_of_mem h fun e he => .inr (hes e he)
  obtain h | h := List.mem_append.mp h
  · exact htr n l h
  obtain h | h := List.mem_append.mp h
  · simpa [Event.quiet] using hr _ h
  · split at h
    · simp only [List.mem_singleton, Event.handed.injEq] at h
      exact h.2.trans ht
    · simp at h

/-- Taking a slot keeps the invariant. -/
theorem TakeStep.inv {q q' : Queue} (h : q.Inv) (ht : q.Takes) (hs : TakeStep q q') : q'.Inv := by
  obtain ⟨he, hh, hc, hne⟩ := ht
  have htile : q.inTile = [] := by rw [h.tile, hc]
  obtain ⟨first, es, ended, rest, ho⟩ := h.order he
  have hrest := ho.rest_eq_nil (.inl hh)
  cases hs with
  | unread reads hr addr =>
    have hsw : ∀ e ∈ reads ++ [Event.read addr false], e.switch = false := by
      intro e he
      obtain he | he := List.mem_append.mp he
      · exact Event.quiet.switch (hr e he)
      · rw [List.mem_singleton.mp he]
        rfl
    have hf : (reads ++ [Event.read addr false]).filter Event.ofSlot = [] := by
      have hf := filter_before hr false 0 []
      simp only [Bool.false_eq_true, if_false, List.append_nil] at hf
      rw [List.filter_append, hf]
      rfl
    refine
      { ring := h.ring, bound := h.bound, held := h.held, status := h.status, tile := h.tile
        order := fun _ => ⟨first, _, ended, rest,
          ho.extend _ rfl hsw hf rfl rfl (.inl hrest) (fun _ => rfl) (fun _ _ => rfl)⟩
        alone := fun n l hm => ?_ }
    rw [← List.append_assoc] at hm
    obtain hm | hm := List.mem_append.mp hm
    · exact h.alone n l (handed_of_mem hm fun e he => .inl (hr e he))
    · simp at hm
  | ended reads hr handed e hn hi =>
    refine
      { ring := h.ring, bound := ?_, held := ?_, status := h.status, tile := h.tile
        order := fun _ => ⟨first, _, _, [], ho.ended hrest e hi
          (reads ++ if handed = true then [.handed q.taken q.inTile] else []) rfl
          (switch_before hr handed _ _) (filter_before hr handed _ _) rfl rfl rfl
          (unread_before hr handed _ _)⟩
        alone := fun n l hm => handed_before _ hr (e.events_ofSlot _) handed htile h.alone hm }
    · intro _
      have hb := h.bound he
      show q.tail - (q.head + 1) ≤ _
      bv_omega
    · intro c hc'
      simp [hc] at hc'
  | failed reads hr handed es' hcut =>
    refine
      { ring := h.ring, bound := h.bound, held := h.held, status := h.status, tile := h.tile
        order := fun _ => ⟨first, _, ended, es', ho.cutShort hrest hcut
          (reads ++ if handed = true then [.handed q.taken q.inTile] else []) rfl
          (switch_before hr handed _ _) (filter_before hr handed _ _) rfl rfl ⟨rfl, ?_⟩⟩
        alone := fun n l hm => handed_before _ hr hcut.ofSlot handed htile h.alone hm }
    intro c hc'
    simp [hc] at hc'
  | held reads hr ended' inTile hin =>
    have hb := switch_before hr true q.taken q.inTile
    have hf := filter_before hr true q.taken q.inTile
    have hu := unread_before hr true q.taken q.inTile
    simp only [if_true] at hb hf hu
    refine
      { ring := h.ring, bound := h.bound, status := h.status, held := ?_, tile := ?_
        order := fun _ => ⟨first, _, ended, rest, ho.extend _ rfl hb hf rfl rfl (.inl hrest) id
          fun a ha => absurd ha (hu a)⟩
        alone := ?_ }
    · intro c hc' _
      cases hc'
      exact ⟨he, rfl, hne⟩
    · rw [htile] at hin
      cases ended' with
      | nil => exact hin.symm
      | cons n ns =>
        simp only [List.nil_append, List.cons_append, List.cons.injEq] at hin
        have := List.append_eq_nil_iff.mp hin.2.symm
        simp [this.2]
    · intro n l hm
      exact handed_before [] hr (by simp) true htile h.alone (by simpa using hm)

/-- Ending the slot held keeps the invariant. -/
theorem FinishStep.inv {q q' : Queue} {c : Holder} (h : q.Inv) (hc : q.cur = some c)
    (hp : c.pending = false) (hs : FinishStep q c q') : q'.Inv := by
  have htile : q.inTile = [] := by rw [h.tile, hc]; simp [hp]
  cases hs with
  | orphan hor =>
    refine
      { ring := h.ring, bound := h.bound, status := h.status, held := by simp, tile := htile
        order := fun he => ?_, alone := h.alone }
    obtain ⟨first, es, ended, rest, ho⟩ := h.order he
    exact ⟨first, es, ended, rest, ho.session, ho.events, ho.idx, ho.head,
      ho.rest.imp_right fun ⟨hr, hh, _⟩ => ⟨hr, hh, by simp⟩, ho.unread⟩
  | ended hor e hn hi =>
    obtain ⟨hen, hidx, hne⟩ := h.held c hc hor
    obtain ⟨first, es, ended, rest, ho⟩ := h.order hen
    have hrest := ho.rest_eq_nil (.inr ⟨c, hc, hor⟩)
    refine
      { ring := h.ring, bound := ?_, status := h.status, held := by simp, tile := htile
        order := fun _ => ⟨first, _, _, [], ho.ended hrest e (hi.trans hidx) [] rfl (by simp) rfl
          rfl (by rw [hidx]) rfl (by simp)⟩
        alone := fun n l hm =>
          h.alone n l (handed_of_mem hm fun x hx => .inr (e.events_ofSlot _ x hx)) }
    intro _
    have hb := h.bound hen
    show q.tail - (c.idx + 1) ≤ _
    rw [hidx]
    bv_omega
  | failed hor es' hcut =>
    obtain ⟨hen, hidx, hne⟩ := h.held c hc hor
    obtain ⟨first, es, ended, rest, ho⟩ := h.order hen
    have hrest := ho.rest_eq_nil (.inr ⟨c, hc, hor⟩)
    exact
      { ring := h.ring, bound := h.bound, status := h.status, held := by simp, tile := htile
        order := fun _ => ⟨first, _, ended, es', ho.cutShort hrest hcut [] rfl (by simp) rfl rfl rfl
          ⟨rfl, by simp⟩⟩
        alone := fun n l hm =>
          h.alone n l (handed_of_mem hm fun x hx => .inr (hcut.ofSlot x hx)) }

/-- Every step of the protocol keeps the invariant. -/
theorem Queue.Step.inv {q q' : Queue} (h : q.Inv) (hs : q.Step q') : q'.Inv := by
  cases hs with
  | quiet es hq =>
    refine
      { ring := h.ring, bound := h.bound, held := h.held, status := h.status, tile := h.tile
        order := fun he => ?_
        alone := fun n l hm => h.alone n l (handed_of_mem hm fun e he => .inl (hq e he)) }
    obtain ⟨first, es', ended, rest, ho⟩ := h.order he
    have hf := filter_before hq false 0 []
    simp only [Bool.false_eq_true, if_false, List.append_nil] at hf
    exact ⟨first, _, ended, rest, ho.extend es rfl (fun e he => Event.quiet.switch (hq e he)) hf rfl rfl
      (ho.rest.imp_right (·.2)) id fun a ha => by simpa [Event.quiet] using hq _ ha⟩
  | take ht q' hs => exact hs.inv h ht
  | finish c hc hp q' hs => exact hs.inv h hc hp
  | tile ended inTile hin =>
    refine
      { ring := h.ring, bound := h.bound, status := h.status, held := ?_, tile := ?_
        order := fun he => ?_, alone := h.alone }
    · intro c hc hor
      obtain ⟨c', hc', rfl⟩ := Option.map_eq_some_iff.mp hc
      exact h.held c' hc' hor
    · have ht := h.tile
      rw [hin] at ht
      cases hc : q.cur with
      | none =>
        rw [hc] at ht
        exact (List.append_eq_nil_iff.mp ht).2
      | some c =>
        rw [hc] at ht
        cases ended with
        | nil => simpa using ht
        | cons n ns =>
          show inTile = _
          cases hp : c.pending with
          | false => simp [hp] at ht
          | true =>
            simp only [hp, if_true, List.cons_append, List.cons.injEq] at ht
            simp [(List.append_eq_nil_iff.mp ht.2).2]
    · obtain ⟨first, es, ended, rest, ho⟩ := h.order he
      refine ⟨first, es, ended, rest, ho.session, ho.events, ho.idx, ho.head,
        ho.rest.imp_right fun ⟨hr, hh, hc⟩ => ⟨hr, hh, ?_⟩, ho.unread⟩
      intro c hcur
      obtain ⟨c', hc', rfl⟩ := Option.map_eq_some_iff.mp hcur
      exact hc c' hc'
  | enable he =>
    refine
      { ring := h.ring, bound := fun _ => ?_, status := rfl, held := ?_, tile := h.tile
        alone := fun n l hm => h.alone n l (by simpa using hm), order := fun _ => ?_ }
    · rw [BitVec.sub_self]
      exact BitVec.le_def.mpr (Nat.zero_le _)
    · intro c hc hor
      have := (h.held c hc hor).1
      simp [he] at this
    · refine ⟨q.tail, [], [], [], ?_, rfl, rfl, by simp, .inl rfl, by simp⟩
      rw [session_append]
      rfl
  | disable he =>
    refine
      { ring := h.ring, bound := by simp, status := rfl, held := ?_, tile := ?_, order := by simp
        alone := fun n l hm => h.alone n l (by simpa using hm) }
    · intro c hc hor
      obtain ⟨c', -, rfl⟩ := Option.map_eq_some_iff.mp hc
      simp at hor
    · show q.inTile = _
      rw [h.tile]
      cases q.cur <;> rfl
  | program he sizeLog2 hs slotAddr tail =>
    refine
      { ring := ?_, bound := fun h' => ?_, status := h.status, held := ?_, tile := h.tile
        order := fun h' => ?_, alone := h.alone }
    · obtain rfl | hs := hs
      · exact h.ring
      · exact hs
    · simp [he] at h'
    · intro c hc hor
      have := (h.held c hc hor).1
      simp [he] at this
    · simp [he] at h'
  | bell he v hv =>
    obtain ⟨hv, hv'⟩ := not_or.mp hv
    refine
      { ring := h.ring, bound := fun _ => BitVec.not_lt.mp hv, status := h.status, held := ?_, tile := h.tile
        order := fun he => ?_, alone := h.alone }
    · intro c hc hor
      obtain ⟨_, hi, hne⟩ := h.held c hc hor
      refine ⟨he, hi, ?_⟩
      -- a doorbell at the head would move the tail back, by more than half the indices
      have hb := h.bound he
      have hring := ringSize_le h.ring
      intro (heq : q.head = v)
      rw [← heq] at hv'
      clear hv
      generalize (1 : U32) <<< q.sizeLog2.toNat = ring at hb hring
      bv_omega
    · obtain ⟨first, es, ended, rest, ho⟩ := h.order he
      exact ⟨first, es, ended, rest, ho.session, ho.events, ho.idx, ho.head, ho.rest, ho.unread⟩
  | halt =>
    refine
      { ring := h.ring, bound := h.bound, status := h.status, held := h.held, tile := h.tile
        order := fun he => ?_, alone := h.alone }
    obtain ⟨first, es, ended, rest, ho⟩ := h.order he
    exact ⟨first, es, ended, rest, ho.session, ho.events, ho.idx, ho.head,
      ho.rest.imp_right fun ⟨hr, _, hc⟩ => ⟨hr, rfl, hc⟩, fun _ _ => rfl⟩
  | reset slotAddr =>
    exact
      { ring := by simp, bound := by simp, status := rfl, held := by simp, tile := rfl
        order := by simp
        alone := fun n l hm => h.alone n l (by simpa using hm) }

end Grxcp.PtaModule
