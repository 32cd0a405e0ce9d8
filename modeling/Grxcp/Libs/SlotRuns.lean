import Grxcp.Libs.SlotOrder

/-!
# Runs of GEMMs on shared slots

What a call asks for comes in one order: its shape kernels, its descriptors, and its launch at the end, on
the stream of its handle (`Orderly`). So the commands of a call in progress are the descriptors that it
has asked for so far (`Planned`), and a run whose calls mind each other keeps every launch's registers
its own (`reads_own`).
-/

namespace Grxcp.Blas

open Grxcp.Runtime
open Queues (Before Covers Prec Latest)

/-! ## What a call asks for -/

/-- The descriptors and the launch that reads them are on one stream, and the launch is the last. -/
def Orderly (stream : Option ℕ) : List Issue → Prop
  | [] => True
  | .program p :: rest => p.stream = stream ∧ Orderly stream rest
  | .launch l :: rest => (l.slots.isSome → l.stream = stream ∧ rest = []) ∧ Orderly stream rest

/-- A part of a call that only launches kernels without descriptors, and leaves the handle's stream and
slots. -/
structure Prelude (ctx : Context) (o : Outcome) : Prop where
  stream : o.ctx.stream = ctx.stream
  slotA : o.ctx.slotA = ctx.slotA
  slotB : o.ctx.slotB = ctx.slotB
  issued : ∀ i ∈ o.issued, ∃ l, i = .launch l ∧ l.slots = none

section Prelude

variable {M : Machine} {current : ℕ} {ctx : Context} {o : Outcome}

theorem Prelude.idle (ctx : Context) (status : Status) : Prelude ctx { ctx, status } :=
  ⟨rfl, rfl, rfl, by simp⟩

theorem Prelude.andThen {f : Context → Outcome} (h : Prelude ctx o)
    (hf : ∀ ctx, Prelude ctx (f ctx)) : Prelude ctx (o.andThen f) := by
  unfold Outcome.andThen
  split
  · obtain ⟨hstream, hA, hB, hissued⟩ := hf o.ctx
    refine ⟨hstream.trans h.stream, hA.trans h.slotA, hB.trans h.slotB, fun i hi => ?_⟩
    exact (List.mem_append.mp hi).elim (h.issued i) (hissued i)
  · exact h

theorem Prelude.ite {c : Prop} [Decidable c] {o' : Outcome} (h : Prelude ctx o) (h' : Prelude ctx o') :
    Prelude ctx (if c then o else o') := by
  split
  · exact h
  · exact h'

/-- A shape kernel's launch, by a handle that has the stream and the slots. -/
theorem Prelude.shape {ctx' : Context} (hstream : ctx'.stream = ctx.stream)
    (hA : ctx'.slotA = ctx.slotA) (hB : ctx'.slotB = ctx.slotB) (kernel : BlasKernel) (device : ℕ)
    (prop : DeviceProp) (refused : Option GrxError) (status : Status) :
    Prelude ctx
      { ctx := ctx', issued := [.launch (shapeLaunch kernel device prop refused)], status } :=
  ⟨hstream, hA, hB, by simp [shapeLaunch]⟩

theorem withShape_same (ctx : Context) (shape : SgemmShape) :
    (ctx.withShape shape).stream = ctx.stream ∧ (ctx.withShape shape).slotA = ctx.slotA ∧
      (ctx.withShape shape).slotB = ctx.slotB := by
  unfold Context.withShape
  dsimp only
  split_ifs <;> exact ⟨rfl, rfl, rfl⟩

theorem prelude_readSgemmShape (ctx : Context) (module : Module) (r : LoadReplies) :
    Prelude ctx (readSgemmShape M ctx module r) := by
  unfold readSgemmShape
  apply Prelude.ite (.idle ctx _)
  split
  · exact .idle ctx _
  apply Prelude.ite (.idle ctx _)
  apply Prelude.ite (.idle ctx _)
  dsimp only
  split
  next shape _ _ =>
    obtain ⟨hstream, hA, hB⟩ := withShape_same ctx shape
    exact .shape hstream hA hB ..
  · apply Prelude.shape <;> rfl

theorem prelude_ensureModule (ctx : Context) (r : LoadReplies) :
    Prelude ctx (ensureModule M current ctx r) := by
  unfold ensureModule
  split
  · exact .idle ctx _
  split
  · exact .idle ctx _
  · obtain ⟨hstream, hA, hB, hissued⟩ := prelude_readSgemmShape (M := M) _ _ r
    exact ⟨hstream, hA, hB, hissued⟩

theorem prelude_ensureIgemm (ctx : Context) (prop : DeviceProp) (i8 : ShapeReplies) :
    Prelude ctx (ensureIgemm ctx prop i8) := by
  unfold ensureIgemm
  apply Prelude.ite (.idle ctx _)
  apply Prelude.ite (.idle ctx _)
  apply Prelude.ite (.idle ctx _)
  dsimp only
  split
  · apply Prelude.ite
    · apply Prelude.shape <;> rfl
    · apply Prelude.shape <;> rfl
  · apply Prelude.shape <;> rfl

theorem prelude_ensureHgemm (ctx : Context) (r : LoadReplies) (h i8 : ShapeReplies) :
    Prelude ctx (ensureHgemm M current ctx r h i8) := by
  unfold ensureHgemm
  apply Prelude.ite (.idle ctx _)
  split
  · exact .idle ctx _
  apply Prelude.ite (.idle ctx _)
  apply (prelude_ensureModule ctx r).andThen
  intro ctx
  apply Prelude.ite (.idle ctx _)
  apply Prelude.ite (.idle ctx _)
  dsimp only
  split
  · apply Prelude.shape <;> rfl
  · apply Prelude.shape <;> rfl
  · apply Prelude.ite
    · apply Prelude.shape <;> rfl
    apply Prelude.ite
    · apply Prelude.shape <;> rfl
    apply Prelude.ite
    · apply Prelude.shape <;> rfl
    apply Prelude.andThen
    · apply Prelude.shape <;> rfl
    · exact fun ctx => prelude_ensureIgemm ctx _ i8

theorem orderly_prelude {stream : Option ℕ} {xs ys : List Issue}
    (hx : ∀ i ∈ xs, ∃ l, i = .launch l ∧ l.slots = none) (hy : Orderly stream ys) :
    Orderly stream (xs ++ ys) := by
  induction xs with
  | nil => exact hy
  | cons x xs ih =>
    obtain ⟨l, rfl, hl⟩ := hx x List.mem_cons_self
    refine ⟨fun hsome => ?_, ih fun i hi => hx i (List.mem_cons_of_mem _ hi)⟩
    rw [hl] at hsome
    cases hsome

theorem programs_prelude {xs ys : List Issue} (hx : ∀ i ∈ xs, ∃ l, i = .launch l ∧ l.slots = none) :
    programs (xs ++ ys) = programs ys := by
  unfold programs
  rw [List.filterMap_append, List.append_left_eq_self, List.filterMap_eq_nil_iff]
  intro i hi
  obtain ⟨l, rfl, -⟩ := hx i hi
  rfl

/-- What is asked for is in order, and its descriptors are of different slots. -/
structure Asks (ctx : Context) (o : Outcome) : Prop where
  orderly : Orderly ctx.stream o.issued
  distinct : (programs o.issued).Pairwise (·.slot ≠ ·.slot)
  slots : o.ctx.slotA ≠ o.ctx.slotB

theorem Asks.ite {c : Prop} [Decidable c] {o' : Outcome} (h : Asks ctx o) (h' : Asks ctx o') :
    Asks ctx (if c then o else o') := by
  split
  · exact h
  · exact h'

theorem Prelude.asks (h : Prelude ctx o) (hne : ctx.slotA ≠ ctx.slotB) : Asks ctx o := by
  have horderly : Orderly ctx.stream (o.issued ++ []) := orderly_prelude h.issued trivial
  have hnone : programs (o.issued ++ []) = programs [] := programs_prelude h.issued
  rw [List.append_nil] at horderly hnone
  exact ⟨horderly, by rw [hnone]; exact .nil, by rw [h.slotA, h.slotB]; exact hne⟩

theorem Prelude.andThen_asks {f : Context → Outcome} (h : Prelude ctx o) (hne : ctx.slotA ≠ ctx.slotB)
    (hf : ∀ ctx', ctx'.stream = ctx.stream → ctx'.slotA ≠ ctx'.slotB → Asks ctx' (f ctx')) :
    Asks ctx (o.andThen f) := by
  unfold Outcome.andThen
  split
  · obtain ⟨horderly, hdistinct, hslots⟩ := hf o.ctx h.stream (by rw [h.slotA, h.slotB]; exact hne)
    rw [h.stream] at horderly
    refine ⟨orderly_prelude h.issued horderly, ?_, hslots⟩
    show (programs (o.issued ++ (f o.ctx).issued)).Pairwise _
    rw [programs_prelude h.issued]
    exact hdistinct
  · exact h.asks hne

theorem launchGemmEx_eq (ctx : Context) (prop : DeviceProp) (s : GemmExArgs) (bm bn : UInt32)
    (refused : Option GrxError) : ∃ xs status,
      launchGemmEx ctx prop s bm bn refused = { ctx, issued := xs, status } ∧
        (xs = [] ∨ ∃ l, xs = [.launch l] ∧ l.stream = ctx.stream) := by
  unfold launchGemmEx
  extract_lets mTiles nTiles tiles warps
  split
  · exact ⟨_, _, rfl, .inl rfl⟩
  · exact ⟨_, _, rfl, .inr ⟨_, rfl, rfl⟩⟩

theorem asks_tensorGemm (hne : ctx.slotA ≠ ctx.slotB) (s : GemmExArgs) (g : GemmReplies) :
    Asks ctx (tensorGemm M current ctx s g) := by
  have hidle : ∀ status, Asks ctx { ctx, status } := fun status => (Prelude.idle ctx status).asks hne
  have hslot : ∀ (elemBytes bm bn tk : UInt32),
      (gemmDescs ctx s elemBytes bm bn tk).1.slot ≠ (gemmDescs ctx s elemBytes bm bn tk).2.slot := by
    intro elemBytes bm bn tk
    have hA : (gemmDescs ctx s elemBytes bm bn tk).1.slot = ctx.slotA.toInt := by
      unfold gemmDescs
      dsimp only
      split <;> rfl
    have hB : (gemmDescs ctx s elemBytes bm bn tk).2.slot = ctx.slotB.toInt := by
      unfold gemmDescs
      dsimp only
      split <;> rfl
    rw [hA, hB]
    exact fun heq => hne (Int32.toInt_inj.mp heq)
  unfold tensorGemm
  dsimp only
  split
  · exact hidle _
  split
  · exact hidle _
  split
  · exact hidle _
  next prop _ =>
  generalize (if s.types = Pairing.int8 then (1 : UInt32) else 2) = elemBytes
  generalize (if s.types = Pairing.int8 then ctx.i8BlockM else ctx.blockM) = bm
  generalize (if s.types = Pairing.int8 then ctx.i8BlockN else ctx.blockN) = bn
  generalize (if s.types = Pairing.int8 then ctx.i8TileK else ctx.tileK) = tk
  have hne' := hslot elemBytes bm bn tk
  generalize gemmDescs ctx s elemBytes bm bn tk = ds at hne' ⊢
  obtain ⟨xs, status, hlaunch, hxs⟩ := launchGemmEx_eq ctx prop s bm bn g.launch
  have horderly : Orderly ctx.stream xs ∧ programs xs = [] := by
    rcases hxs with rfl | ⟨l, rfl, hl⟩
    · exact ⟨trivial, rfl⟩
    · exact ⟨⟨fun _ => ⟨hl, rfl⟩, trivial⟩, rfl⟩
  unfold Outcome.andThen
  by_cases hk : 0 < s.k
  · simp only [if_pos hk]
    by_cases hA : fromGrx g.programA = .success
    · simp only [hA, if_true]
      by_cases hB : fromGrx g.programB = .success
      · simp only [hB, if_true, hlaunch]
        refine ⟨⟨rfl, rfl, horderly.1⟩, ?_, hne⟩
        show (ds.1 :: ds.2 :: programs xs).Pairwise _
        rw [horderly.2]
        simpa using hne'
      · simp only [hB, if_false]
        exact ⟨⟨rfl, rfl, trivial⟩, by simpa [programs] using hne', hne⟩
    · simp only [hA, if_false]
      exact ⟨⟨rfl, trivial⟩, by simp [programs], hne⟩
  · simp only [if_neg hk, if_true, hlaunch]
    refine ⟨horderly.1, ?_, hne⟩
    show (programs ([] ++ xs)).Pairwise _
    rw [List.nil_append, horderly.2]
    exact .nil

/-- A call of `grxblasGemmEx` asks for what it does in order. -/
theorem asks_gemmEx (hne : ctx.slotA ≠ ctx.slotB) (s : GemmExArgs) (r : LoadReplies)
    (h i8 : ShapeReplies) (g : GemmReplies) : Asks ctx (grxblasGemmEx M current ctx s r h i8 g) := by
  have hidle : ∀ status, Asks ctx { ctx, status } := fun status => (Prelude.idle ctx status).asks hne
  unfold grxblasGemmEx
  iterate 6 apply Asks.ite (hidle _)
  split
  · exact hidle _
  · exact hidle _
  · exact .ite (hidle _) (hidle _)
  · exact (prelude_ensureHgemm ctx r h i8).andThen_asks hne
      fun ctx' _ hne' => asks_tensorGemm hne' s g

end Prelude

namespace SlotState

/-! ## New commands -/

section Takes

variable {s : SlotState} {st st' : Streams} {r : Role} {c : Command} {ws : ℕ → List DcrWrite}
  {pending : ℕ → Prop} {call : ℕ}

/-- A call of the runtime's that issues nothing. -/
theorem takes_same (hlog : st.board.log = s.board.log) :
    (s.takes st r).role = s.role ∧ (s.takes st r).seen = s.seen := by
  have hno : ∀ i, ¬(s.board.log.length ≤ i ∧ i < st.board.log.length) := by
    intro i hi
    rw [hlog] at hi
    omega
  constructor <;> funext i <;> exact if_neg (hno i)

theorem Reserved.takes_same (hs : s.Reserved ws pending) (hlog : st.board.log = s.board.log)
    (hdone : st.board.done = s.board.done) : (s.takes st r).Reserved ws pending := by
  obtain ⟨hrole, hseen⟩ := SlotState.takes_same (r := r) hlog
  exact hs.congr hlog hdone hrole hseen rfl fun _ h => h

theorem takes_appends (hlog : st.board.log = s.board.log ++ [c])
    (hdone : st.board.done = s.board.done) : Appends s (s.takes st r) c r := by
  have hnew : ∀ i, (s.board.log.length ≤ i ∧ i < st.board.log.length) ↔ i = s.board.log.length := by
    intro i
    rw [hlog, List.length_append, List.length_singleton]
    omega
  refine ⟨hlog, hdone, ?_, ?_, rfl⟩
  · funext i
    rw [Function.update_apply]
    exact if_congr (hnew i) rfl rfl
  · funext i
    rw [Function.update_apply]
    exact if_congr (hnew i) rfl rfl

/-- Commands of one role may be counted together. -/
theorem takes_takes (hle : s.board.log.length ≤ st.board.log.length)
    (hle' : st.board.log.length ≤ st'.board.log.length) (hdone : st.board.done = s.board.done) :
    (s.takes st r).takes st' r = s.takes st' r := by
  unfold takes
  simp only [SlotState.mk.injEq, true_and, and_true]
  constructor
  · funext i
    show (if st.board.log.length ≤ i ∧ _ then _ else if s.board.log.length ≤ i ∧ _ then _ else _) = _
    split_ifs <;> first | rfl | omega
  · funext i
    show (if st.board.log.length ≤ i ∧ _ then st.board.done
      else if s.board.log.length ≤ i ∧ _ then _ else _) = _
    rw [hdone]
    split_ifs <;> first | rfl | omega

theorem enqueueWrites_keeps (st : Streams) (queue : Queue) (waits : List ℕ) (us : List DcrWrite) :
    Streams.Keeps st (st.enqueueWrites queue waits us) ∧
      ∃ new, (st.enqueueWrites queue waits us).board.log = st.board.log ++ new ∧
        ∀ a ∈ new, a.queue = queue := by
  induction us generalizing st waits with
  | nil => exact ⟨.refl st, [], (List.append_nil _).symm, by simp⟩
  | cons u us ih =>
    let st₁ : Streams := { st with board := st.board.issue ⟨queue, waits, .work (.program u)⟩ }
    obtain ⟨hkeeps, new, hlog, hnew⟩ := ih st₁ []
    have hfirst : Streams.Keeps st st₁ := .of_state rfl le_rfl rfl
    refine ⟨hfirst.trans hkeeps, ⟨queue, waits, .work (.program u)⟩ :: new, ?_, ?_⟩
    · show (st₁.enqueueWrites queue [] us).board.log = _
      rw [hlog, List.append_cons]
      rfl
    · rintro a ha
      rcases List.mem_cons.mp ha with rfl | ha
      · rfl
      · exact hnew a ha

theorem enqueueWrites_length (st : Streams) (queue : Queue) (waits : List ℕ) (us : List DcrWrite) :
    st.board.log.length ≤ (st.enqueueWrites queue waits us).board.log.length := by
  obtain ⟨-, new, hlog, -⟩ := enqueueWrites_keeps st queue waits us
  rw [hlog, List.length_append]
  exact Nat.le_add_right _ _

/-- Nothing of the slot is in the way of a call's write: what others use it with is done or before it,
and no other call holds it. -/
structure Clear (s : SlotState) (ws : ℕ → List DcrWrite) (pending : ℕ → Prop) (call : ℕ) (slot : ℤ)
    (queue : Queue) (waits : List ℕ) : Prop where
  unlaunched : ∀ i, s.role i ≠ .launch call
  sameQueue : ∀ j a, s.role j = .program call → s.board.log[j]? = some a → a.queue = queue
  rival : ∀ j, s.Rival call slot j → j ∈ s.board.done ∨
    ∀ w : DcrWrite, Covers s.board.log ⟨queue, waits, .work (.program w)⟩ j
  reader : ∀ i k, k ≠ call → s.role i = .launch k → (∃ w ∈ ws k, w.1.1 = slot) →
    i ∈ s.board.done ∨ ∀ w : DcrWrite, Covers s.board.log ⟨queue, waits, .work (.program w)⟩ i
  pending : ∀ k, k ≠ call → pending k → ∀ w ∈ ws k, w.1.1 ≠ slot

/-- After a write of its own, a call's next write comes after what that one came after. -/
theorem Clear.next {queue : Queue} {waits : List ℕ} {slot : ℤ} {u : DcrWrite} {s' : SlotState}
    (hs : s.Reserved ws pending) (hc : Clear s ws pending call slot queue waits)
    (h : Appends s s' ⟨queue, waits, .work (.program u)⟩ (.program call)) :
    Clear s' (Function.update ws call (ws call ++ [u])) pending call slot queue [] := by
  have hnext : ∀ {j}, (j ∈ s.board.done ∨
      ∀ w : DcrWrite, Covers s.board.log ⟨queue, waits, .work (.program w)⟩ j) →
      j ∈ s'.board.done ∨ ∀ w : DcrWrite, Covers s'.board.log ⟨queue, [], .work (.program w)⟩ j := by
    rintro j (hj | hj)
    · rw [h.done]
      exact .inl hj
    · right
      intro w
      rw [h.log]
      refine ⟨s.board.log.length, ⟨_, Queues.getElem?_append_last _ _, .inl rfl⟩, .inr ?_⟩
      exact Queues.before_last.mpr (hj u)
  refine ⟨?_, ?_, ?_, ?_, ?_⟩
  · intro i hi
    exact hc.unlaunched i (h.role_old hs hi nofun nofun).2
  · intro j a hj ha
    rcases h.role_cases hs (by rw [hj]; exact nofun) with ⟨hlt, hrole⟩ | ⟨rfl, -⟩
    · rw [h.lookup hlt] at ha
      exact hc.sameQueue j a (hrole ▸ hj) ha
    · rw [h.log, Queues.getElem?_append_last] at ha
      cases ha
      rfl
  · intro j hj
    obtain ⟨d, w, hne, hrole, -, -⟩ := id hj
    have hlt := (h.role_old hs hrole nofun fun heq => hne (Role.program.inj heq).symm).1
    exact hnext (hc.rival j (h.rival hlt hj))
  · intro i k hk hi hw
    rw [Function.update_of_ne hk] at hw
    exact hnext (hc.reader i k hk (h.role_old hs hi nofun nofun).2 hw)
  · intro k hk hp w hw
    rw [Function.update_of_ne hk] at hw
    exact hc.pending k hk hp w hw

/-- The writes of a descriptor, one after the other. -/
theorem Reserved.writes {us : List DcrWrite} {slot : ℤ} {queue : Queue} {waits : List ℕ}
    (hs : s.Reserved ws pending) (hc : Clear s ws pending call slot queue waits)
    (hu : ∀ u ∈ us, u.1.1 = slot) (hlog : st.board.log = s.board.log)
    (hdone : st.board.done = s.board.done) :
    (s.takes (st.enqueueWrites queue waits us) (.program call)).Reserved
      (Function.update ws call (ws call ++ us)) pending := by
  induction us generalizing s st ws waits with
  | nil =>
    rw [List.append_nil, Function.update_eq_self]
    exact hs.takes_same hlog hdone
  | cons u us ih =>
    obtain rfl := hu u List.mem_cons_self
    let st₁ : Streams := { st with board := st.board.issue ⟨queue, waits, .work (.program u)⟩ }
    have hlog₁ : st₁.board.log = s.board.log ++ [⟨queue, waits, .work (.program u)⟩] := by
      rw [← hlog]
      rfl
    have happ := takes_appends (r := .program call) hlog₁ hdone
    have hstep := hs.program happ rfl hc.unlaunched hc.sameQueue
      (fun j hj => (hc.rival j hj).imp_right fun h => h u)
      (fun i k hk hi hw => (hc.reader i k hk hi hw).imp_right fun h => h u) hc.pending
    have hrest : ((s.takes st₁ (.program call)).takes (st₁.enqueueWrites queue [] us)
        (.program call)).Reserved _ pending :=
      ih hstep (hc.next hs happ) (fun u' hu' => hu u' (List.mem_cons_of_mem _ hu')) rfl rfl
    have hle : s.board.log.length ≤ st₁.board.log.length := by
      rw [hlog₁, List.length_append]
      exact Nat.le_add_right _ _
    rw [takes_takes hle (enqueueWrites_length st₁ queue [] us) hdone, Function.update_self,
      Function.update_idem, List.append_assoc] at hrest
    exact hrest

end Takes

/-! ## Calls in progress -/

theorem launches_cons {i : Issue} {is : List Issue} {l : Launch} (h : l ∈ launches is) :
    l ∈ launches (i :: is) := by
  cases i with
  | launch l' => exact List.mem_cons_of_mem l' h
  | program p => exact h

/-- What a call asks for does not depend on the calls in progress. -/
theorem ask_progress (P : Platform) (device : ℕ) (s : SlotState) (progress : ℕ → Option Progress)
    (call kernel : ℕ) (r : Replies) (taken : ℕ) (i : Issue) :
    ({ s with progress } : SlotState).ask P device call kernel r taken i =
      ({ (s.ask P device call kernel r taken i).1 with progress },
        (s.ask P device call kernel r taken i).2) := by
  cases i with
  | launch l =>
    unfold ask
    dsimp only
    split <;> rfl
  | program p => rfl

theorem ask_same (P : Platform) (device : ℕ) (s : SlotState) (call kernel : ℕ) (r : Replies)
    (taken : ℕ) (i : Issue) : (s.ask P device call kernel r taken i).1.progress = s.progress ∧
      (s.ask P device call kernel r taken i).1.calls = s.calls := by
  cases i with
  | launch l =>
    unfold ask
    dsimp only
    split <;> exact ⟨rfl, rfl⟩
  | program p => exact ⟨rfl, rfl⟩

/-- A launch that reads descriptors is yet to come. -/
def Awaits (rest : List Issue) : Prop :=
  ∃ l ∈ launches rest, l.slots.isSome ∧ l.refused = none

/-- The launch of the call is yet to come. -/
def Pending (s : SlotState) (call : ℕ) : Prop :=
  ∃ handle p, s.progress handle = some p ∧ p.call = call ∧ Awaits p.rest

/-- A call in progress has programmed what comes before the rest of its descriptors, on its stream. -/
structure Underway (device : ℕ) (s : SlotState) (ws : ℕ → List DcrWrite) (p : Progress) : Prop where
  call : p.call < s.calls
  rest : ∃ before, s.descs p.call = before ++ programs p.rest ∧
    ws p.call = before.flatMap (·.writes)
  orderly : ∃ stream, Orderly stream p.rest ∧
    ∀ j a, s.role j = .program p.call → s.board.log[j]? = some a →
      ∃ t, s.runtime.streams.state? (keyOf stream device) = some t ∧ a.queue = t.queue
  unlaunched : p.rest ≠ [] → ∀ i, s.role i ≠ .launch p.call

/-- What the calls have programmed is what they were to. -/
structure Planned (device : ℕ) (s : SlotState) (ws : ℕ → List DcrWrite) : Prop where
  handles : ∀ handle, (s.handles handle).slotA ≠ (s.handles handle).slotB
  fresh : ∀ h t, s.runtime.streams.state? (.user h) = some t → h < s.runtime.streams.fresh
  distinct : ∀ call, (s.descs call).Pairwise (·.slot ≠ ·.slot)
  program : ∀ i call, s.role i = .program call → call < s.calls
  launch : ∀ i call, s.role i = .launch call → call < s.calls ∧
    ws call = (s.descs call).flatMap (·.writes)
  slots : ∀ call, ∀ w ∈ ws call, ∃ d ∈ s.descs call, w.1.1 = d.slot
  unused : ∀ call, s.calls ≤ call → ws call = []
  unique : ∀ h h' p p', s.progress h = some p → s.progress h' = some p' → p.call = p'.call → h = h'
  underway : ∀ handle p, s.progress handle = some p → Underway device s ws p

/-- Everything that holds between actions. -/
def Good (device : ℕ) (s : SlotState) : Prop :=
  ∃ ws, s.Reserved ws s.Pending ∧ s.Planned device ws

theorem Good.reads {device : ℕ} {s : SlotState} (h : s.Good device) : s.ReadsOwn := by
  obtain ⟨ws, hs, hp⟩ := h
  exact hs.reads hp.distinct fun i call hi => (hp.launch i call hi).2

theorem Good.empty (device : ℕ) : ({} : SlotState).Good device := by
  have hwrites : ∀ i w, ({} : SlotState).writes i ≠ some w := by
    intro i w hw
    obtain ⟨a, ha, -⟩ := writes_eq_some.mp hw
    cases ha
  have hrole : ∀ i r, r ≠ .other → ({} : SlotState).role i ≠ r := fun i r hr hi => hr hi.symm
  refine ⟨fun _ => [], ⟨.empty, ?_, ?_, ?_, .empty, ?_, ?_, ?_, ?_, ?_⟩, ⟨?_, ?_, ?_, ?_, ?_, ?_, fun _ _ => rfl, ?_, ?_⟩⟩
  · exact fun i => Finset.Subset.refl _
  · exact fun i hi => absurd rfl hi
  · exact fun i w hw => absurd hw (hwrites i w)
  · intro call
    refine ⟨fun j hj => absurd hj (hrole j _ nofun), fun k v hv => ?_,
      fun i j a b hi => absurd hi (hrole i _ nofun)⟩
    cases hv
  · exact fun i call hi => absurd hi (hrole i _ nofun)
  · exact fun i call hi => absurd hi (hrole i _ nofun)
  · exact fun call _ i hi => absurd hi (hrole i _ nofun)
  · rintro call - slot j ⟨d, w, -, hj, -, -⟩
    exact absurd hj (hrole j _ nofun)
  · intro handle
    show (0 : Int32) ≠ 1
    decide
  · intro h t ht
    cases ht
  · exact fun call => .nil
  · exact fun i call hi => absurd hi (hrole i _ nofun)
  · exact fun i call hi => absurd hi (hrole i _ nofun)
  · intro call w hw
    cases hw
  · intro h h' p p' hp
    cases hp
  · intro handle p hp
    cases hp

section Step

variable {M : Machine} {P : Platform} {device : ℕ} {s s' : SlotState} {ws : ℕ → List DcrWrite}

/-- New commands of a call that is not in progress, which complete its descriptors if one of them is a
launch. -/
theorem Planned.extend {ws' : ℕ → List DcrWrite} {call : ℕ} (h : s.Planned device ws)
    (hstreams : Streams.Keeps s.runtime.streams s'.runtime.streams) (hhandles : s'.handles = s.handles)
    (hprogress : s'.progress = s.progress) (hcalls : s'.calls = s.calls) (hdescs : s'.descs = s.descs)
    (hrole : ∀ i, s'.role i ≠ .other →
      (s'.role i = s.role i ∧ s'.board.log[i]? = s.board.log[i]?) ∨
        call < s.calls ∧ (s'.role i = .program call ∨
          s'.role i = .launch call ∧ ws' call = (s.descs call).flatMap (·.writes)))
    (hother : ∀ k, k ≠ call → ws' k = ws k) (hws : ∀ i, s.role i = .launch call → ws' call = ws call)
    (hslots : ∀ w ∈ ws' call, ∃ d ∈ s.descs call, w.1.1 = d.slot)
    (hunused : s.calls ≤ call → ws' call = [])
    (hfree : ∀ handle p, s.progress handle = some p → p.call ≠ call) : s'.Planned device ws' := by
  refine ⟨?_, hstreams.fresh h.fresh, ?_, ?_, ?_, ?_, ?_, ?_, ?_⟩
  · rw [hhandles]
    exact h.handles
  · rw [hdescs]
    exact h.distinct
  · intro i k hi
    rw [hcalls]
    rcases hrole i (by rw [hi]; exact nofun) with ⟨heq, -⟩ | ⟨hlt, heq | ⟨heq, -⟩⟩
    · exact h.program i k (heq ▸ hi)
    · rw [hi] at heq
      exact Role.program.inj heq ▸ hlt
    · rw [hi] at heq
      cases heq
  · intro i k hi
    rw [hcalls, hdescs]
    rcases hrole i (by rw [hi]; exact nofun) with ⟨heq, -⟩ | ⟨hlt, heq | ⟨heq, hall⟩⟩
    · rw [heq] at hi
      obtain ⟨hk, hall⟩ := h.launch i k hi
      refine ⟨hk, ?_⟩
      by_cases hkc : k = call
      · subst hkc
        rw [hws i hi, hall]
      · rw [hother k hkc, hall]
    · rw [hi] at heq
      cases heq
    · rw [hi] at heq
      obtain rfl := Role.launch.inj heq
      exact ⟨hlt, hall⟩
  · intro k w hw
    rw [hdescs]
    by_cases hkc : k = call
    · subst hkc
      exact hslots w hw
    · rw [hother k hkc] at hw
      exact h.slots k w hw
  · intro k hk
    rw [hcalls] at hk
    by_cases hkc : k = call
    · subst hkc
      exact hunused hk
    · rw [hother k hkc]
      exact h.unused k hk
  · rw [hprogress]
    exact h.unique
  · intro handle p hp
    rw [hprogress] at hp
    have hne := hfree handle p hp
    obtain ⟨hcall, hrest, ⟨stream, horderly, hqueue⟩, hun⟩ := h.underway handle p hp
    refine ⟨by rw [hcalls]; exact hcall, by rw [hdescs, hother _ hne]; exact hrest,
      ⟨stream, horderly, ?_⟩, ?_⟩
    · intro j a hj ha
      rcases hrole j (by rw [hj]; exact nofun) with ⟨heq, hlog⟩ | ⟨-, heq | ⟨heq, -⟩⟩
      · rw [hlog] at ha
        obtain ⟨t, ht, hq⟩ := hqueue j a (heq ▸ hj) ha
        obtain ⟨t', ht', hq'⟩ := hstreams.queue _ t ht
        exact ⟨t', ht', hq.trans hq'.symm⟩
      · rw [hj] at heq
        exact absurd (Role.program.inj heq) hne
      · rw [hj] at heq
        cases heq
    · intro hnil i hi
      rcases hrole i (by rw [hi]; exact nofun) with ⟨heq, -⟩ | ⟨-, heq | ⟨heq, -⟩⟩
      · exact hun hnil i (heq ▸ hi)
      · rw [hi] at heq
        cases heq
      · rw [hi] at heq
        exact hne (Role.launch.inj heq)

/-- The tables of calls and the streams' queues are all that matters to the plans. -/
theorem Planned.congr (h : s.Planned device ws)
    (hstreams : Streams.Keeps s.runtime.streams s'.runtime.streams) (hhandles : s'.handles = s.handles)
    (hprogress : s'.progress = s.progress) (hcalls : s'.calls = s.calls) (hdescs : s'.descs = s.descs)
    (hrole : ∀ i, s'.role i ≠ .other → s'.role i = s.role i ∧ s'.board.log[i]? = s.board.log[i]?) :
    s'.Planned device ws := by
  refine h.extend hstreams hhandles hprogress hcalls hdescs (fun i hi => .inl (hrole i hi))
    (fun _ _ => rfl) (fun _ _ => rfl) (h.slots s.calls) (h.unused s.calls) fun handle p hp => ?_
  exact (h.underway handle p hp).call.ne

/-- A handle with other settings. -/
theorem Planned.setHandle (h : s.Planned device ws) (handle : ℕ) {ctx : Context}
    (hne : ctx.slotA ≠ ctx.slotB) :
    ({ s with handles := Function.update s.handles handle ctx } : SlotState).Planned device ws := by
  obtain ⟨hhandles, hfresh, hdistinct, hprogram, hlaunch, hslots, hunused, hunique, hunderway⟩ := h
  refine ⟨fun handle' => ?_, hfresh, hdistinct, hprogram, hlaunch, hslots, hunused, hunique, ?_⟩
  · show (Function.update s.handles handle ctx handle').slotA ≠
      (Function.update s.handles handle ctx handle').slotB
    by_cases hsame : handle' = handle
    · rw [hsame, Function.update_self]
      exact hne
    · rw [Function.update_of_ne hsame]
      exact hhandles handle'
  · intro handle' p hp
    obtain ⟨hcall, hrest, horderly, hun⟩ := hunderway handle' p hp
    exact ⟨hcall, hrest, horderly, hun⟩

theorem Good.setHandle (h : s.Good device) (handle : ℕ) {ctx : Context} (hne : ctx.slotA ≠ ctx.slotB) :
    ({ s with handles := Function.update s.handles handle ctx } : SlotState).Good device := by
  obtain ⟨ws, hs, hp⟩ := h
  refine ⟨ws, ?_, hp.setHandle handle hne⟩
  refine hs.congr ?_ ?_ ?_ ?_ ?_ fun _ hp => hp <;> rfl

/-- A handle's call in progress is given up, or has come to its end. -/
theorem Planned.drop (h : s.Planned device ws) (handle : ℕ) :
    ({ s with progress := Function.update s.progress handle none } : SlotState).Planned device ws := by
  obtain ⟨hhandles, hfresh, hdistinct, hprogram, hlaunch, hslots, hunused, hunique, hunderway⟩ := h
  have hold : ∀ {handle' p}, Function.update s.progress handle none handle' = some p →
      s.progress handle' = some p := by
    intro handle' p hp
    rw [Function.update_apply] at hp
    split at hp
    · cases hp
    · exact hp
  refine ⟨hhandles, hfresh, hdistinct, hprogram, hlaunch, hslots, hunused, ?_, ?_⟩
  · exact fun h h' p p' hp hp' => hunique h h' p p' (hold hp) (hold hp')
  · intro handle' p hp
    obtain ⟨hcall, hrest, horderly, hun⟩ := hunderway handle' p (hold hp)
    exact ⟨hcall, hrest, horderly, hun⟩

/-- A call is in progress on a handle that had none. -/
theorem Planned.put (h : s.Planned device ws) {handle : ℕ} {p : Progress}
    (hp : s.Underway device ws p)
    (hfree : ∀ handle' p', s.progress handle' = some p' → p'.call ≠ p.call) :
    ({ s with progress := Function.update s.progress handle (some p) } : SlotState).Planned device ws := by
  obtain ⟨hhandles, hfresh, hdistinct, hprogram, hlaunch, hslots, hunused, hunique, hunderway⟩ := h
  have hcases : ∀ {handle' p'}, Function.update s.progress handle (some p) handle' = some p' →
      (handle' = handle ∧ p' = p) ∨ s.progress handle' = some p' := by
    intro handle' p' hp'
    rw [Function.update_apply] at hp'
    split at hp'
    next heq => exact .inl ⟨heq, (Option.some.inj hp').symm⟩
    next => exact .inr hp'
  refine ⟨hhandles, hfresh, hdistinct, hprogram, hlaunch, hslots, hunused, ?_, ?_⟩
  · intro h₁ h₂ p₁ p₂ hp₁ hp₂ hcall
    rcases hcases hp₁ with ⟨hh₁, heq₁⟩ | hold₁ <;> rcases hcases hp₂ with ⟨hh₂, heq₂⟩ | hold₂
    · rw [hh₁, hh₂]
    · exact absurd (heq₁ ▸ hcall.symm) (hfree h₂ p₂ hold₂)
    · exact absurd (heq₂ ▸ hcall) (hfree h₁ p₁ hold₁)
    · exact hunique h₁ h₂ p₁ p₂ hold₁ hold₂ hcall
  · intro handle' p' hp'
    rcases hcases hp' with ⟨-, rfl⟩ | hp'
    · obtain ⟨hcall, hrest, horderly, hun⟩ := hp
      exact ⟨hcall, hrest, horderly, hun⟩
    · obtain ⟨hcall, hrest, horderly, hun⟩ := hunderway handle' p' hp'
      exact ⟨hcall, hrest, horderly, hun⟩

/-- A call of the runtime's. -/
theorem Good.call (h : s.Good device) (c : ApiCall) : (s.call P c).Good device := by
  obtain ⟨ws, hs, hp⟩ := h
  obtain ⟨hkeeps, hlog⟩ := Context.call_keeps P c hp.fresh
  have hreserved : (s.takes (s.runtime.call P c).1.streams .other).Reserved ws s.Pending := by
    rcases hlog with hlog | ⟨cmd, hlog, hbody⟩
    · exact hs.takes_same hlog hkeeps.done
    · exact hs.other (takes_appends hlog hkeeps.done) hbody
  have hcall : (s.call P c).Reserved ws s.Pending := by
    refine hreserved.congr ?_ ?_ ?_ ?_ ?_ fun _ hp => hp <;> rfl
  refine ⟨ws, hcall, ?_⟩
  refine hp.congr hkeeps rfl rfl rfl rfl fun i hi => ?_
  rcases hlog with hlog | ⟨cmd, hlog, -⟩
  · exact ⟨congrFun (takes_same hlog).1 i, congrArg (·[i]?) hlog⟩
  · have happ := takes_appends (r := .other) hlog hkeeps.done
    rcases happ.role_cases hs hi with ⟨hlt, hrole⟩ | ⟨-, hrole⟩
    · exact ⟨hrole, happ.lookup hlt⟩
    · exact absurd hrole hi

/-- A completion. -/
theorem Good.complete (h : s.Good device) (i : ℕ) : (s.complete i).Good device := by
  obtain ⟨ws, hs, hp⟩ := h
  refine ⟨ws, hs.complete i, ?_⟩
  have hlog : (s.complete i).board.log = s.board.log := Queues.Board.complete_log
  have hplan := hp
  obtain ⟨hhandles, hfresh, hdistinct, hprogram, hlaunch, hslots, hunused, hunique, hunderway⟩ := hplan
  refine ⟨hhandles, hfresh, hdistinct, hprogram, hlaunch, hslots, hunused, hunique, ?_⟩
  intro handle p hprogress
  obtain ⟨hcall, hrest, ⟨stream, horderly, hqueue⟩, hun⟩ := hunderway handle p hprogress
  refine ⟨hcall, hrest, ⟨stream, horderly, fun j a hj ha => ?_⟩, hun⟩
  rw [hlog] at ha
  exact hqueue j a hj ha

/-- A call begins: it has a number of its own, and descriptors to program. -/
theorem Planned.begin (h : s.Planned device ws) {ds : List GrxTensorMapDesc}
    (hds : ds.Pairwise (·.slot ≠ ·.slot)) :
    ({ s with calls := s.calls + 1, descs := Function.update s.descs s.calls ds } :
      SlotState).Planned device ws := by
  have hold : ∀ {call}, call < s.calls → Function.update s.descs s.calls ds call = s.descs call :=
    fun hlt => Function.update_of_ne hlt.ne _ _
  refine ⟨h.handles, h.fresh, ?_, ?_, ?_, ?_, ?_, h.unique, ?_⟩
  · intro call
    show (Function.update s.descs s.calls ds call).Pairwise _
    rcases eq_or_ne call s.calls with rfl | hne
    · rw [Function.update_self]
      exact hds
    · rw [Function.update_of_ne hne]
      exact h.distinct call
  · exact fun i call hi => Nat.lt_succ_of_lt (h.program i call hi)
  · intro i call hi
    obtain ⟨hlt, hall⟩ := h.launch i call hi
    exact ⟨Nat.lt_succ_of_lt hlt, hall.trans (congrArg (List.flatMap _) (hold hlt).symm)⟩
  · intro call w hw
    have hlt : call < s.calls := by
      by_contra hge
      rw [h.unused call (not_lt.mp hge)] at hw
      cases hw
    obtain ⟨d, hd, hslot⟩ := h.slots call w hw
    refine ⟨d, ?_, hslot⟩
    show d ∈ Function.update s.descs s.calls ds call
    rw [hold hlt]
    exact hd
  · exact fun call hle => h.unused call (Nat.le_of_succ_le hle)
  · intro handle p hp
    obtain ⟨hlt, ⟨before, hrest, hws⟩, horderly, hun⟩ := h.underway handle p hp
    exact ⟨Nat.lt_succ_of_lt hlt, ⟨before, (hold hlt).trans hrest, hws⟩, horderly, hun⟩

/-- `grxblasGemmEx` on a handle without a call in progress. -/
theorem Good.gemmEx (h : s.Good device) (handle : ℕ) {o : Outcome} (ho : Asks (s.handles handle) o) :
    ({ s with
        handles := Function.update s.handles handle o.ctx
        progress := Function.update s.progress handle (some ⟨s.calls, o.issued⟩)
        calls := s.calls + 1
        descs := Function.update s.descs s.calls (programs o.issued) } : SlotState).Good device := by
  obtain ⟨ws, hs, hp⟩ := h
  have hprogram : ∀ i, s.role i ≠ .program s.calls :=
    fun i hi => lt_irrefl _ (hp.program i s.calls hi)
  have hlaunch : ∀ i, s.role i ≠ .launch s.calls :=
    fun i hi => lt_irrefl _ (hp.launch i s.calls hi).1
  refine ⟨ws, ?_, ?_⟩
  · refine (hs.join hprogram hlaunch).congr ?_ ?_ ?_ ?_ ?_ ?_
    iterate 5 rfl
    rintro call ⟨handle', p, hprogress, rfl, hawaits⟩
    change Function.update s.progress handle _ handle' = some p at hprogress
    rcases eq_or_ne handle' handle with rfl | hne
    · rw [Function.update_self] at hprogress
      cases hprogress
      exact .inr rfl
    · rw [Function.update_of_ne hne] at hprogress
      exact .inl ⟨handle', p, hprogress, rfl, hawaits⟩
  · have hbegin := (hp.begin ho.distinct).setHandle handle ho.slots
    refine hbegin.put (p := ⟨s.calls, o.issued⟩) ⟨Nat.lt_succ_self _, ⟨[], ?_, ?_⟩,
      ⟨_, ho.orderly, fun j a hj => absurd hj (hprogram j)⟩, fun _ => hlaunch⟩ ?_
    · exact Function.update_self _ _ _
    · exact hp.unused s.calls le_rfl
    · exact fun handle' p' hp' => (hp.underway handle' p' hp').call.ne

/-! ## One thing after the other -/

/-- A stream that resolves has a state, with the queue. -/
theorem resolve_queue {st : Streams} {stream : Option ℕ} {r : Replies} {queue : Queue}
    (h : Streams.resolveStream P s.runtime.streams stream device r = (st, .ok queue)) :
    ∃ t, st.state? (keyOf stream device) = some t ∧ t.queue = queue := by
  obtain ⟨t, ht, hq⟩ := Streams.resolve_ok (congrArg Prod.snd h)
  rw [h, Streams.lookup_eq] at ht
  exact ⟨t, ht, hq⟩

/-- Resolving a stream keeps the streams and issues nothing. -/
theorem resolved_keeps {st : Streams} {stream : Option ℕ} {r : Replies} {res : Except GrxError Queue}
    (h : Streams.resolveStream P s.runtime.streams stream device r = (st, res))
    (hp : s.Planned device ws) :
    Streams.Keeps s.runtime.streams st ∧ st.board.log = s.board.log := by
  have hkeeps := Streams.resolve_keeps P stream device r hp.fresh
  have hboard := Streams.resolve_board P s.runtime.streams stream device r
  rw [h] at hkeeps hboard
  exact ⟨hkeeps, congrArg _ hboard⟩

/-- A call's writes are on the queue that its stream has now. -/
theorem Underway.queue {p : Progress} (hu : Underway device s ws p) {st : Streams}
    (hkeeps : Streams.Keeps s.runtime.streams st) : ∃ stream, Orderly stream p.rest ∧
      ∀ j a, s.role j = .program p.call → s.board.log[j]? = some a →
        ∃ t, st.state? (keyOf stream device) = some t ∧ a.queue = t.queue := by
  obtain ⟨stream, horderly, hqueue⟩ := hu.orderly
  refine ⟨stream, horderly, fun j a hj ha => ?_⟩
  obtain ⟨t, ht, hq⟩ := hqueue j a hj ha
  obtain ⟨t', ht', hq'⟩ := hkeeps.queue _ t ht
  exact ⟨t', ht', hq.trans hq'.symm⟩

/-- What holds once a call has asked for one thing: where the rest of it stands if it goes on. -/
structure Asked (device : ℕ) (pending : ℕ → Prop) (call : ℕ) (rest : List Issue)
    (x : SlotState × Bool) (ws : ℕ → List DcrWrite) : Prop where
  reserved : x.1.Reserved ws fun k => pending k ∧ (k = call → Awaits rest)
  planned : x.1.Planned device ws
  underway : x.2 = true → Underway device x.1 ws ⟨call, rest⟩

section Asked

variable {pending : ℕ → Prop} {call kernel taken : ℕ} {r : Replies} {rest : List Issue}

/-- A call goes on past a launch that is none of a GEMM's own. -/
theorem Underway.tail {l : Launch} (hu : Underway device s ws ⟨call, .launch l :: rest⟩)
    (hstreams : Streams.Keeps s.runtime.streams s'.runtime.streams) (hcalls : s'.calls = s.calls)
    (hdescs : s'.descs = s.descs)
    (hrole : ∀ i, s'.role i ≠ .other → s'.role i = s.role i ∧ s'.board.log[i]? = s.board.log[i]?) :
    Underway device s' ws ⟨call, rest⟩ := by
  obtain ⟨stream, horderly, hqueue⟩ := hu.queue hstreams
  obtain ⟨hcall, hrest, -, hun⟩ := hu
  refine ⟨by rw [hcalls]; exact hcall, by rw [hdescs]; exact hrest,
    ⟨stream, horderly.2, fun j a hj ha => ?_⟩, fun _ i hi => ?_⟩
  · obtain ⟨heq, hlog⟩ := hrole j (by rw [hj]; exact nofun)
    rw [hlog] at ha
    exact hqueue j a (heq ▸ hj) ha
  · obtain ⟨heq, -⟩ := hrole i (by rw [hi]; exact nofun)
    exact hun (List.cons_ne_nil _ _) i (heq ▸ hi)

theorem Asked.launch {l : Launch} (hs : s.Reserved ws pending) (hp : s.Planned device ws)
    (hu : Underway device s ws ⟨call, .launch l :: rest⟩)
    (hfree : ∀ handle p, s.progress handle = some p → p.call ≠ call)
    (hpending : Awaits (.launch l :: rest) → pending call) :
    Asked device pending call rest (s.ask P device call kernel r taken (.launch l)) ws := by
  unfold ask
  dsimp only
  split
  · refine ⟨?_, hp, fun _ => hu.tail (.refl _) rfl rfl fun _ _ => ⟨rfl, rfl⟩⟩
    refine hs.congr ?_ ?_ ?_ ?_ ?_ fun _ h => h.1 <;> rfl
  next hrefused =>
  obtain ⟨hkeeps, hlog⟩ := Streams.submit_keeps P l.stream device (.work (.launch ⟨device, kernel⟩)) r
    Streams.quiet_id hp.fresh
  generalize Streams.submit P s.runtime.streams l.stream device (.work (.launch ⟨device, kernel⟩)) r
    (fun s _ => s) = x at hkeeps hlog ⊢
  obtain ⟨st, res⟩ := x
  dsimp only at hkeeps hlog ⊢
  rcases hlog with ⟨hlog, hfail⟩ | ⟨t, waits, hlog, ht⟩
  · -- the driver has refused it
    have hsame := takes_same (r := if l.slots.isSome then .launch call else .other) hlog
    refine ⟨?_, ?_, fun hok => ?_⟩
    · have htakes := hs.takes_same (r := if l.slots.isSome then .launch call else .other) hlog hkeeps.done
      refine htakes.congr ?_ ?_ ?_ ?_ ?_ fun _ h => h.1 <;> rfl
    · exact hp.congr hkeeps rfl rfl rfl rfl fun i _ => ⟨congrFun hsame.1 i, congrArg (·[i]?) hlog⟩
    · rw [hfail] at hok
      cases hok
  by_cases hslots : l.slots.isSome
  · -- the launch that reads the descriptors: it is the call's last
    rw [if_pos hslots]
    have happ := takes_appends (r := .launch call) hlog hkeeps.done
    obtain ⟨stream, horderly, hqueue⟩ := hu.queue (Streams.resolve_keeps P l.stream device r hp.fresh)
    obtain ⟨rfl, rfl⟩ := horderly.1 hslots
    have hawaits : Awaits [.launch l] := by
      refine ⟨l, List.mem_cons_self, hslots, ?_⟩
      simpa using hrefused
    obtain ⟨before, hrest, hws⟩ := hu.rest
    have hall : ws call = (s.descs call).flatMap (·.writes) := by
      rw [hws, hrest]
      show _ = (before ++ []).flatMap _
      rw [List.append_nil]
    refine ⟨?_, ?_, fun _ => ?_⟩
    · have hlaunch := hs.launch happ (fun w => nofun) (hpending hawaits) fun j a hj ha => ?_
      · refine hlaunch.congr ?_ ?_ ?_ ?_ ?_ fun k hk => ⟨hk.1, fun heq => ?_⟩
        iterate 5 rfl
        obtain ⟨l', hl', -⟩ := hk.2 heq
        cases hl'
      · obtain ⟨t', ht', hq⟩ := hqueue j a hj ha
        rw [ht] at ht'
        cases ht'
        exact hq
    · refine hp.extend hkeeps rfl rfl rfl rfl ?_ (fun _ _ => rfl) (fun _ _ => rfl) (hp.slots call)
        (hp.unused call) hfree
      intro i hi
      rcases happ.role_cases hs hi with ⟨hlt, heq⟩ | ⟨-, heq⟩
      · exact .inl ⟨heq, happ.lookup hlt⟩
      · exact .inr ⟨hu.call, .inr ⟨heq, hall⟩⟩
    · obtain ⟨stream, -, hqueue⟩ := hu.queue hkeeps
      refine ⟨hu.call, ⟨before, hrest, hws⟩, ⟨stream, trivial, fun j a hj ha => ?_⟩, absurd rfl⟩
      obtain ⟨hlt, hj⟩ := happ.role_old hs hj nofun nofun
      rw [happ.lookup hlt] at ha
      exact hqueue j a hj ha
  · -- a kernel without descriptors
    rw [if_neg hslots]
    have happ := takes_appends (r := .other) hlog hkeeps.done
    have hrole : ∀ i, (s.takes st .other).role i ≠ .other →
        (s.takes st .other).role i = s.role i ∧
          (s.takes st .other).board.log[i]? = s.board.log[i]? := by
      intro i hi
      rcases happ.role_cases hs hi with ⟨hlt, heq⟩ | ⟨-, heq⟩
      · exact ⟨heq, happ.lookup hlt⟩
      · exact absurd heq hi
    refine ⟨?_, hp.congr hkeeps rfl rfl rfl rfl hrole, fun _ => hu.tail hkeeps rfl rfl hrole⟩
    have hother := hs.other happ fun w => nofun
    refine hother.congr ?_ ?_ ?_ ?_ ?_ fun _ h => h.1 <;> rfl

/-- The commands of a descriptor's writes are the new ones, all on one queue. -/
theorem takes_writes {st st' : Streams} {queue : Queue} {new : List Command}
    (hs : s.Reserved ws pending) (hlog : st.board.log = s.board.log)
    (hlog' : st'.board.log = st.board.log ++ new) (hnew : ∀ a ∈ new, a.queue = queue) {i : ℕ}
    (hi : (s.takes st' (.program call)).role i ≠ .other) :
    ((s.takes st' (.program call)).role i = s.role i ∧ st'.board.log[i]? = s.board.log[i]?) ∨
      (s.takes st' (.program call)).role i = .program call ∧
        ∀ a, st'.board.log[i]? = some a → a.queue = queue := by
  rw [hlog] at hlog'
  have hrole : (s.takes st' (.program call)).role i =
      if s.board.log.length ≤ i ∧ i < st'.board.log.length then .program call else s.role i := rfl
  rw [hrole] at hi ⊢
  by_cases hlast : s.board.log.length ≤ i ∧ i < st'.board.log.length
  · rw [if_pos hlast]
    refine .inr ⟨rfl, fun a ha => hnew a ?_⟩
    rw [hlog', List.getElem?_append_right hlast.1] at ha
    exact List.mem_of_getElem? ha
  · rw [if_neg hlast] at hi ⊢
    refine .inl ⟨rfl, ?_⟩
    rw [hlog', List.getElem?_append_left (hs.range i hi)]

theorem Asked.writes {p : Program} {st st' : Streams} {queue : Queue} {waits : List ℕ}
    {us : List DcrWrite} {ok : Bool} (hs : s.Reserved ws pending) (hp : s.Planned device ws)
    (hu : Underway device s ws ⟨call, .program p :: rest⟩)
    (hfree : ∀ handle p, s.progress handle = some p → p.call ≠ call)
    (hclear : us ≠ [] → Clear s ws pending call p.desc.slot queue waits)
    (hresolve : Streams.resolveStream P s.runtime.streams p.stream device r = (st, .ok queue))
    (hwrites : ∀ u ∈ us, u ∈ p.desc.writes) (hall : ok = true → us = p.desc.writes)
    (hkeeps : Streams.Keeps (st.enqueueWrites queue waits us) st')
    (hlog' : st'.board.log = (st.enqueueWrites queue waits us).board.log) :
    Asked device pending call rest (s.takes st' (.program call), ok)
      (Function.update ws call (ws call ++ us)) := by
  obtain ⟨hkeeps₀, hlog⟩ := resolved_keeps hresolve hp
  obtain ⟨hkeeps₁, new, hnew, hqueue⟩ := enqueueWrites_keeps st queue waits us
  have hstreams := hkeeps₀.trans (hkeeps₁.trans hkeeps)
  have hsplit : ∀ i, (s.takes st' (.program call)).role i ≠ .other → _ :=
    fun i => takes_writes hs hlog (hlog'.trans hnew) hqueue
  obtain ⟨before, hrest, hws⟩ := hu.rest
  have hdesc : p.desc ∈ s.descs call := by
    rw [hrest]
    exact List.mem_append_right _ List.mem_cons_self
  refine ⟨?_, ?_, fun hok => ?_⟩
  · have hreserved : (s.takes (st.enqueueWrites queue waits us) (.program call)).Reserved
        (Function.update ws call (ws call ++ us)) pending := by
      by_cases hnil : us = []
      · rw [hnil, List.append_nil, Function.update_eq_self]
        exact hs.takes_same hlog hkeeps₀.done
      · exact hs.writes (hclear hnil) (fun u hu => slot_of_mem u (hwrites u hu)) hlog hkeeps₀.done
    have hlog₁ : (s.takes st' (.program call)).board.log =
        (s.takes (st.enqueueWrites queue waits us) (.program call)).board.log := hlog'
    refine hreserved.congr hlog₁ ?_ ?_ ?_ rfl ?_
    · exact hkeeps.done
    · funext i
      show (if _ ∧ i < st'.board.log.length then _ else _) = _
      rw [hlog']
      rfl
    · funext i
      show (if _ ∧ i < st'.board.log.length then _ else _) = _
      rw [hlog']
      rfl
    · exact fun k hk => hk.1
  · refine hp.extend hstreams rfl rfl rfl rfl ?_ (fun k hk => Function.update_of_ne hk _ _) ?_ ?_ ?_
      hfree
    · intro i hi
      rcases hsplit i hi with h | ⟨h, -⟩
      · exact .inl h
      · exact .inr ⟨hu.call, .inl h⟩
    · exact fun i hi => absurd hi (hu.unlaunched (List.cons_ne_nil _ _) i)
    · intro w hw
      rw [Function.update_self] at hw
      rcases List.mem_append.mp hw with hw | hw
      · exact hp.slots call w hw
      · exact ⟨p.desc, hdesc, slot_of_mem w (hwrites w hw)⟩
    · exact fun hle => absurd hu.call (not_lt.mpr hle)
  · obtain ⟨stream, horderly, hold⟩ := hu.queue hstreams
    obtain ⟨t, ht, hq⟩ := resolve_queue hresolve
    obtain ⟨t', ht', hq'⟩ := (hkeeps₁.trans hkeeps).queue _ t ht
    refine ⟨hu.call, ⟨before ++ [p.desc], ?_, ?_⟩, ⟨stream, horderly.2, fun j a hj ha => ?_⟩,
      fun _ i hi => ?_⟩
    · rw [List.append_assoc]
      exact hrest
    · show Function.update ws call _ call = _
      rw [Function.update_self, hws, hall hok, List.flatMap_append]
      simp
    · rcases hsplit j (by rw [hj]; exact nofun) with ⟨heq, hlookup⟩ | ⟨-, hnewq⟩
      · exact hold j a (heq ▸ hj) (hlookup ▸ ha)
      · refine ⟨t', ?_, ?_⟩
        · rw [← horderly.1]
          exact ht'
        · rw [hnewq a ha, hq', hq]
    · rcases hsplit i (by rw [hi]; exact nofun) with ⟨heq, -⟩ | ⟨heq, -⟩
      · exact hu.unlaunched (List.cons_ne_nil _ _) i (heq ▸ hi)
      · rw [hi] at heq
        cases heq

theorem Asked.program {p : Program} (hs : s.Reserved ws pending) (hp : s.Planned device ws)
    (hu : Underway device s ws ⟨call, .program p :: rest⟩)
    (hfree : ∀ handle p, s.progress handle = some p → p.call ≠ call)
    (hclear : ∀ st queue,
      Streams.resolveStream P s.runtime.streams p.stream device r = (st, .ok queue) →
      (p.refused = none ∧ r.enqueue = none) ∨ 0 < taken →
      Clear s ws pending call p.desc.slot queue (st.collectWaitEvents p.stream device)) :
    ∃ ws', Asked device pending call rest (s.ask P device call kernel r taken (.program p)) ws' := by
  unfold ask Streams.submitProgram
  dsimp only
  rcases hresolve : Streams.resolveStream P s.runtime.streams p.stream device r with ⟨st, e | queue⟩
  · obtain ⟨hkeeps, hlog⟩ := resolved_keeps hresolve hp
    have hsame := takes_same (r := .program call) hlog
    refine ⟨ws, ?_, ?_, nofun⟩
    · have htakes := hs.takes_same (r := .program call) hlog hkeeps.done
      refine htakes.congr ?_ ?_ ?_ ?_ ?_ fun _ h => h.1 <;> rfl
    · exact hp.congr hkeeps rfl rfl rfl rfl fun i _ => ⟨congrFun hsame.1 i, congrArg (·[i]?) hlog⟩
  by_cases hrefused : p.refused.isNone ∧ r.enqueue.isNone
  · rw [if_pos hrefused]
    dsimp only
    have hclear' := hclear st queue hresolve (.inl (by simpa using hrefused))
    refine ⟨_, Asked.writes hs hp hu hfree (fun _ => hclear') hresolve (fun u hu => hu) (fun _ => rfl)
      ?_ ?_⟩
    · refine Streams.Keeps.trans ?_ (Streams.setStreamLastEvent_keeps _ _ _ _)
      exact .of_state rfl le_rfl rfl
    · rw [Streams.setStreamLastEvent_log]
  · rw [if_neg hrefused]
    dsimp only
    refine ⟨_, Asked.writes hs hp hu hfree (fun hne => ?_) hresolve
      (fun u hu => List.mem_of_mem_take hu) nofun (.refl _) rfl⟩
    refine hclear st queue hresolve (.inr ?_)
    by_contra hzero
    rw [Nat.eq_zero_of_not_pos hzero] at hne
    exact hne rfl

/-- A call that minds the others finds the slot clear. -/
theorem Planned.clear {handle : ℕ} {p : Program} {queue : Queue} {waits : List ℕ}
    (hp : s.Planned device ws) (hprogress : s.progress handle = some ⟨call, .program p :: rest⟩)
    (hqueue : ∀ j a, s.role j = .program call → s.board.log[j]? = some a → a.queue = queue)
    (huses : ∀ i, s.Uses call p.desc.slot i → i ∈ s.board.done ∨
      ∀ w : DcrWrite, Covers s.board.log ⟨queue, waits, .work (.program w)⟩ i)
    (hholds : ∀ handle' ≠ handle, ¬ s.Holds handle' p.desc.slot) :
    Clear s ws s.Pending call p.desc.slot queue waits := by
  have hu := hp.underway handle _ hprogress
  refine ⟨hu.unlaunched (List.cons_ne_nil _ _), hqueue, ?_, ?_, ?_⟩
  · rintro j ⟨k, w, hne, hrole, hw, hslot⟩
    exact huses j ⟨k, hne, .inl ⟨hrole, w, hw, hslot⟩⟩
  · rintro i k hne hi ⟨w, hw, hslot⟩
    obtain ⟨d, hd, hdslot⟩ := hp.slots k w hw
    exact huses i ⟨k, hne, .inr ⟨hi, d, hd, hdslot.symm.trans hslot⟩⟩
  · rintro k hne ⟨handle', p', hprogress', rfl, hawaits⟩ w hw hslot
    have hne' : handle' ≠ handle := by
      rintro rfl
      rw [hprogress] at hprogress'
      cases hprogress'
      exact hne rfl
    -- what it has programmed is none of what it has yet to program
    obtain ⟨before, hrest, hws⟩ := (hp.underway handle' p' hprogress').rest
    rw [hws] at hw
    obtain ⟨d, hd, hw⟩ := List.mem_flatMap.mp hw
    have hdslot : d.slot = p.desc.slot := (slot_of_mem w hw).symm.trans hslot
    have hdistinct := hp.distinct p'.call
    rw [hrest] at hdistinct
    refine hholds handle' hne' ⟨p', hprogress', ⟨d, ?_, hdslot⟩, fun d' hd' hslot' => ?_, hawaits⟩
    · rw [hrest]
      exact List.mem_append_left _ hd
    · exact (List.pairwise_append.mp hdistinct).2.2 d hd d' hd' (hdslot.trans hslot'.symm)

end Asked

/-- A call asks for its next thing, or comes to its end. -/
theorem Good.advance (h : s.Good device) (handle kernel : ℕ) (r : Replies) (taken : ℕ)
    (hm : s.Minds P device (.advance handle kernel r taken)) :
    (s.step M P device (.advance handle kernel r taken)).Good device := by
  obtain ⟨ws, hs, hp⟩ := h
  have hdropped : ∀ {handle' p}, Function.update s.progress handle none handle' = some p →
      handle' ≠ handle ∧ s.progress handle' = some p := by
    intro handle' p hp'
    rcases eq_or_ne handle' handle with rfl | hne
    · rw [Function.update_self] at hp'
      cases hp'
    · rw [Function.update_of_ne hne] at hp'
      exact ⟨hne, hp'⟩
  -- the state without the call in progress
  let s₀ : SlotState := { s with progress := Function.update s.progress handle none }
  have hs₀ : s₀.Reserved ws s.Pending := by
    refine hs.congr ?_ ?_ ?_ ?_ ?_ fun _ h => h <;> rfl
  have hp₀ : s₀.Planned device ws := hp.drop handle
  unfold step
  dsimp only
  split
  · exact ⟨ws, hs, hp⟩
  · refine ⟨ws, ?_, hp₀⟩
    refine hs.congr ?_ ?_ ?_ ?_ ?_ ?_
    iterate 5 rfl
    rintro call ⟨handle', p, hp', hcall⟩
    exact ⟨handle', p, (hdropped hp').2, hcall⟩
  next call issue rest hprogress =>
  have hu : Underway device s₀ ws ⟨call, issue :: rest⟩ := by
    obtain ⟨hcall, hrest, horderly, hun⟩ := hp.underway handle _ hprogress
    exact ⟨hcall, hrest, horderly, hun⟩
  have hfree : ∀ handle' p, s₀.progress handle' = some p → p.call ≠ call := by
    intro handle' p hp' heq
    obtain ⟨hne, hp'⟩ := hdropped hp'
    exact hne (hp.unique _ _ _ _ hp' hprogress heq)
  obtain ⟨ws', hasked⟩ :
      ∃ ws', Asked device s.Pending call rest (s₀.ask P device call kernel r taken issue) ws' := by
    cases issue with
    | launch l =>
      exact ⟨ws, .launch hs₀ hp₀ hu hfree fun hawaits => ⟨handle, _, hprogress, rfl, hawaits⟩⟩
    | program p =>
      refine Asked.program hs₀ hp₀ hu hfree fun st queue hresolve htaken => ?_
      obtain ⟨huses, hholds⟩ := hm call p rest hprogress st queue hresolve htaken
      have hclear := hp.clear hprogress ?_ huses hholds
      · exact ⟨hclear.unlaunched, hclear.sameQueue, hclear.rival, hclear.reader, hclear.pending⟩
      · obtain ⟨hkeeps, -⟩ := resolved_keeps hresolve hp₀
        obtain ⟨stream, horderly, hqueue⟩ := (hp.underway handle _ hprogress).queue hkeeps
        obtain ⟨t, ht, hq⟩ := resolve_queue hresolve
        intro j a hj ha
        obtain ⟨t', ht', hq'⟩ := hqueue j a hj ha
        rw [← horderly.1, ht] at ht'
        cases ht'
        exact hq'.trans hq
  have hsame : s₀.ask P device call kernel r taken issue =
      ({ (s.ask P device call kernel r taken issue).1 with progress := s₀.progress },
        (s.ask P device call kernel r taken issue).2) := ask_progress ..
  have hprogress₁ := (s.ask_same P device call kernel r taken issue).1
  rw [hsame] at hasked
  rcases hask : s.ask P device call kernel r taken issue with ⟨s₁, ok⟩
  rw [hask] at hasked hprogress₁
  obtain ⟨hreserved, hplanned, hunderway⟩ := hasked
  dsimp only at hprogress₁ hreserved hplanned hunderway ⊢
  cases ok with
  | false =>
    dsimp only
    refine ⟨ws', ?_, ?_⟩
    · refine hreserved.congr ?_ ?_ ?_ ?_ ?_ ?_
      iterate 5 rfl
      rintro k ⟨handle', p, hp', rfl, hawaits⟩
      change Function.update s₁.progress handle none handle' = some p at hp'
      rw [hprogress₁] at hp'
      obtain ⟨hne, hp'⟩ := hdropped hp'
      refine ⟨⟨handle', p, hp', rfl, hawaits⟩, fun heq => ?_⟩
      exact absurd (hp.unique _ _ _ _ hp' hprogress heq) hne
    · rw [hprogress₁]
      exact hplanned
  | true =>
    dsimp only
    refine ⟨ws', ?_, ?_⟩
    · refine hreserved.congr ?_ ?_ ?_ ?_ ?_ ?_
      iterate 5 rfl
      rintro k ⟨handle', p, hp', rfl, hawaits⟩
      change Function.update s₁.progress handle (some ⟨call, rest⟩) handle' = some p at hp'
      rw [hprogress₁] at hp'
      rcases eq_or_ne handle' handle with rfl | hne
      · rw [Function.update_self] at hp'
        cases hp'
        refine ⟨⟨handle', _, hprogress, rfl, ?_⟩, fun _ => hawaits⟩
        obtain ⟨l, hl, hlaunch⟩ := hawaits
        exact ⟨l, launches_cons hl, hlaunch⟩
      · rw [Function.update_of_ne hne] at hp'
        refine ⟨⟨handle', p, hp', rfl, hawaits⟩, fun heq => ?_⟩
        exact absurd (hp.unique _ _ _ _ hp' hprogress heq) hne
    · have hsame₁ : Function.update s₁.progress handle (some ⟨call, rest⟩) =
          Function.update s₀.progress handle (some ⟨call, rest⟩) := by
        rw [hprogress₁]
        exact (Function.update_idem _ _ _).symm
      rw [hsame₁]
      exact hplanned.put (hunderway rfl) hfree

/-- Every action keeps what holds. -/
theorem Good.step (h : s.Good device) (a : SlotAction) (hm : s.Minds P device a) :
    (s.step M P device a).Good device := by
  have hslots : ∀ handle, (s.handles handle).slotA ≠ (s.handles handle).slotB := by
    obtain ⟨ws, -, hp⟩ := h
    exact hp.handles
  cases a with
  | call c => exact h.call c
  | complete i => exact h.complete i
  | setStream handle stream =>
    unfold SlotState.step
    dsimp only
    split
    · exact h
    · exact h.setHandle handle (hslots handle)
  | setTensorMapSlots handle slotA slotB =>
    unfold SlotState.step
    dsimp only
    split
    · exact h
    · refine h.setHandle handle ?_
      unfold grxblasSetTensorMapSlots
      split
      · exact hslots handle
      split_ifs with hbad
      · exact hslots handle
      · exact fun heq => hbad (.inr (.inr (.inr (.inr heq))))
  | gemmEx handle args r hr i8 g =>
    unfold SlotState.step
    dsimp only
    split
    · exact h
    · exact h.gemmEx handle (asks_gemmEx (hslots handle) args r hr i8 g)
  | advance handle kernel r taken => exact h.advance handle kernel r taken hm

/-! ## One GEMM -/

theorem calls_step (M : Machine) (P : Platform) (device : ℕ) (s : SlotState) (a : SlotAction) :
    (s.step M P device a).calls ≤ s.calls + if a.isGemm then 1 else 0 := by
  cases a with
  | call c => exact le_rfl
  | complete i => exact le_rfl
  | setStream handle stream =>
    unfold SlotState.step
    dsimp only
    split <;> exact le_rfl
  | setTensorMapSlots handle slotA slotB =>
    unfold SlotState.step
    dsimp only
    split <;> exact le_rfl
  | gemmEx handle args r h i8 g =>
    unfold SlotState.step
    dsimp only
    split
    · exact Nat.le_add_right _ _
    · exact le_rfl
  | advance handle kernel r taken =>
    unfold SlotState.step
    dsimp only
    split
    · exact le_rfl
    · exact le_rfl
    next call issue rest _ =>
    have hcalls := (s.ask_same P device call kernel r taken issue).2
    rcases hask : s.ask P device call kernel r taken issue with ⟨s₁, ok⟩
    rw [hask] at hcalls
    cases ok <;> exact hcalls.le

/-- A call has nobody to mind if it is the only one. -/
theorem Good.minds_alone (h : s.Good device) (hcalls : s.calls ≤ 1) (a : SlotAction) :
    s.Minds P device a := by
  obtain ⟨ws, -, hp⟩ := h
  unfold Minds
  split
  next handle kernel r taken =>
    intro call p rest hprogress st queue _ _
    have hcall : call < s.calls := (hp.underway handle _ hprogress).call
    refine ⟨?_, ?_⟩
    · rintro i ⟨c, hne, hrole⟩
      have hc : c < s.calls := hrole.elim (fun h => hp.program i c h.1) fun h => (hp.launch i c h.1).1
      exact absurd (by omega) hne
    · rintro handle' hne ⟨p', hp', -⟩
      have hc : p'.call < s.calls := (hp.underway handle' p' hp').call
      exact hne (hp.unique _ _ _ _ hp' hprogress (show p'.call = call by omega))
  next => trivial

/-- A run with one GEMM. -/
theorem Good.along_alone {as : List SlotAction} (h : s.Good device)
    (hcalls : s.calls + as.countP (·.isGemm) ≤ 1) :
    Runs.Along (SlotState.step M P device) (Minds P device) s as := by
  induction as generalizing s with
  | nil => trivial
  | cons a as ih =>
    rw [List.countP_cons] at hcalls
    have hm : s.Minds P device a := h.minds_alone (by omega) a
    have hstep := calls_step M P device s a
    exact ⟨hm, ih (h.step a hm) (by omega)⟩

end Step

end SlotState

/-- While the launch of a GEMM can be running, the registers of its slots hold what the GEMM wrote, in
every run whose calls mind each other. -/
theorem reads_own (M : Machine) (P : Platform) (device : ℕ) (as : List SlotAction)
    (h : Runs.Along (SlotState.step M P device) (SlotState.Minds P device) {} as) :
    (Runs.after (SlotState.step M P device) {} as).ReadsOwn :=
  SlotState.Good.reads (Runs.invariant (fun _ a hs hm => hs.step a hm) h (.empty device))

/-- A device with tensor cores. -/
def tensorMachine : Machine where
  props := fun _ => .ok { capabilities := GRX_CAP_TENSOR_CORE ||| GRX_CAP_ASYNC_COPY }
  slotCount := fun _ => .ok 2

/-- An int8 GEMM of a handle that has no module yet, with `a` at an address. -/
def gemmAt (handle : ℕ) (a : UInt64) : SlotAction :=
  .gemmEx handle { m := 16, n := 8, k := 4, a, lda := 16, b := 0x2000, ldb := 4, c := 0x3000, ldc := 16 }
    { module := some { device := 0, shape := false } } {} {} {}

/-- It asks for two shape kernels, its two descriptors and its launch. -/
def advances (handle : ℕ) : List SlotAction :=
  List.replicate 5 (.advance handle 0 {} 0)

theorem reads_own_first :
    (Runs.after (SlotState.step tensorMachine plain 0) {} (gemmAt 0 0x1000 :: advances 0)).ReadsOwn :=
  reads_own tensorMachine plain 0 _ (SlotState.Good.along_alone (.empty 0) (by decide))

/-- Two handles on streams of their own, and the writes of the second before the launch of the first. -/
def crossed : List SlotAction :=
  [.call (.streamCreate true grxStreamNonBlocking {}), .call (.streamCreate true grxStreamNonBlocking {}),
    .setStream 0 (some 1), .setStream 1 (some 2), gemmAt 0 0x1000, gemmAt 1 0x4000] ++
  advances 0 ++ advances 1 ++ (List.range 22).map .complete ++
  (List.range 23).map fun i => .complete (23 + i)

/-- The first launch would read the second call's descriptor. -/
theorem reads_own_not :
    ¬ ∀ (M : Machine) (P : Platform) (device : ℕ) (as : List SlotAction),
      (Runs.after (SlotState.step M P device) {} as).ReadsOwn := by
  intro h
  have hrun : ∃ c ∈ (Runs.after (SlotState.step tensorMachine plain 0) {} crossed).board.log[22]?,
      (Runs.after (SlotState.step tensorMachine plain 0) {} crossed).role 22 = .launch 0 ∧
      (Runs.after (SlotState.step tensorMachine plain 0) {} crossed).board.Free 22 c ∧
      ∃ d ∈ (Runs.after (SlotState.step tensorMachine plain 0) {} crossed).descs 0,
        Writes.last (d.slot, .baseLo) d.writes = some 0x1000 ∧
        (Runs.after (SlotState.step tensorMachine plain 0) {} crossed).regs (d.slot, .baseLo) = 0x4000 := by
    decide +kernel
  obtain ⟨c, hc, hrole, hfree, d, hd, hlast, hregs⟩ := hrun
  have hown := h tensorMachine plain 0 crossed 22 0 c hrole hc hfree d hd .baseLo _ hlast
  rw [hregs] at hown
  exact absurd hown (by decide)

end Grxcp.Blas
