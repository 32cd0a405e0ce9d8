import Grxcp.Runtime.QueueDevice

/-!
# Memory that pending commands name

`grxFree` gives an extent back to the free list, or a buffer back to the driver, and does not look at
the queues: a copy or a memset that names it may still be pending, and the best fit of the next
allocation may be the same extent. No pending command names memory of an allocation made after it was
enqueued in the runs that free nothing a pending command names (`unnamed_of_settled`). Memory that is
never freed, or is kept in quarantine, is given out once only, whatever the schedule is.
-/

namespace Grxcp.Runtime

/-! ## What commands name -/

/-- The ranges that the work names. -/
def Work.operands : Work → List Operand
  | .copy dst src => [dst, src]
  | .write dst => [dst]
  | .read src => [src]
  | .fill dst => [dst]
  | .launch _ => []
  | .program _ => []

/-- The range has the point of the device. -/
structure Operand.Names (o : Operand) (e p : ℕ) : Prop where
  buffer : ∃ b, o.buffer = some b ∧ b.device = e
  start : o.address ≤ p
  stop : p < o.address + o.size

/-- The point of the device is in a range that the work names. -/
def Work.Names (w : Work) (e p : ℕ) : Prop :=
  ∃ o ∈ w.operands, o.Names e p

/-- A command that is enqueued and not yet complete names the point. -/
def Streams.Pending (s : Streams) (e p : ℕ) : Prop :=
  ∃ i c w, s.board.log[i]? = some c ∧ i ∉ s.board.done ∧ c.body = .work w ∧ w.Names e p

/-! ## Memory in use -/

namespace DeviceHeap

/-- The point is of a block that the device has not given up. -/
def Used (h : DeviceHeap) (p : ℕ) : Prop :=
  ∃ a, h.Owned a ∧ a.Occupies p

/-- What an allocating call does to memory in use: it stays in use, and the block that is returned is
of other memory. -/
structure Gives (h : DeviceHeap) (res : DeviceHeap × Except GrxError ℕ) : Prop where
  kept : ∀ p, h.Used p → res.1.Used p
  fresh : ∀ base a, res.2 = .ok base → res.1.live.Has base a → ∀ p, a.Occupies p → ¬h.Used p

variable {P : Platform} {e need : ℕ} {ok : ℕ → Prop} {h h' : DeviceHeap} {drv : Driver}

theorem Gives.error (x : GrxError) : h.Gives (h, .error x) where
  kept := fun _ hp => hp
  fresh := by
    intro base a hok
    cases hok

/-- A new region has no blocks. -/
theorem Gives.of_grow {r : Region} {res : DeviceHeap × Except GrxError ℕ} (hg : (h.grow r).Gives res) :
    h.Gives res :=
  ⟨hg.kept, hg.fresh⟩

/-- A block at a base where there was none but an empty one, and of memory that is not in use. -/
theorem Gives.place {a : Block} (hlive : h'.live = h.live) (hheld : h'.held = h.held)
    (hkey : ∀ c, h.live.Has a.base c → c.size = 0) (hfree : ∀ p, a.Occupies p → ¬h.Used p) :
    h.Gives (h'.place a, .ok a.base) where
  kept := by
    rintro p ⟨c, hc | hc, hp⟩
    · have hne : c.base ≠ a.base := by
        intro heq
        have hsize := hkey c (heq ▸ hc)
        have hstart := hp.1
        have hstop := hp.2
        omega
      refine ⟨c, .inl (OrdMap.has_insert.mpr (.inr ⟨hne, ?_⟩)), hp⟩
      rwa [hlive]
    · refine ⟨c, .inr ?_, hp⟩
      show c ∈ h'.held
      rwa [hheld]
  fresh := by
    intro base c hbase hc
    obtain rfl := Except.ok.inj hbase
    rcases OrdMap.has_insert.mp hc with ⟨-, rfl⟩ | ⟨hne, -⟩
    · exact hfree
    · exact absurd rfl hne

/-- What best fit finds is free. -/
theorem Sound.gives_take (hs : h.Sound P e ok) {base : ℕ}
    (ht : h.take need (alignmentFor (P.device e)) = some (base, h')) (hok : ok need) (managed : Bool) :
    h.Gives (h'.place (h'.cut e base need managed), .ok base) := by
  obtain ⟨-, hlive, hbase, hfits⟩ := hs.take managed false hok ht
  obtain ⟨r, hr, n, hhas, -, hle, rfl⟩ := take_some ht
  set h' := h.edit base fun m => m.carve base n need
  have hplace : h.Gives (h'.place (h'.cut e base need managed), .ok (h'.cut e base need managed).base) := by
    refine Gives.place hlive rfl (fun c hc => ?_) ?_
    · rw [hbase] at hc
      exact hs.free_key r hr base n c hhas hc
    · rintro p ⟨hlo, hhi⟩ ⟨c, hc, hp⟩
      rw [hbase] at hlo hhi
      rw [hfits.size] at hhi
      exact hs.owned_free c p hc hp ⟨r, hr, base, n, hhas, hlo, hhi.trans_le (by omega)⟩
  rwa [hbase] at hplace

/-- A new buffer of the driver's is not in use. -/
theorem Sound.gives_direct (hs : h.Sound P e ok) (hdrv : drv.Ok h.Taken) (managed physical : Bool) :
    h.Gives (h.allocateDirect e need managed physical drv) := by
  unfold DeviceHeap.allocateDirect
  rcases hc : drv.create need with x | ⟨buffer, base⟩
  · exact .error x
  · obtain ⟨hn, -, -, hfresh⟩ := hdrv need buffer base (Driver.create_ok hc)
    refine Gives.place rfl rfl (fun c hc => ?_) fun p hp hused => ?_
    · exact absurd (hs.taken_key hc) (hfresh base le_rfl (by omega))
    · obtain ⟨c, hc, hcp⟩ := hused
      exact hfresh p hp.1 hp.2 (hs.taken hc hcp)

theorem Sound.gives_npu (hs : h.Sound P e ok) (hok : ok need) (hnpu : (P.device e).type = .npu)
    (managed : Bool) : h.Gives (h.allocateNpu P e need managed) := by
  unfold DeviceHeap.allocateNpu
  rcases hw : h.window P e with x | h₁
  · exact .error x
  -- the window is there, or it is a new region
  have hgrown : h₁.Sound P e ok ∧ ∀ res, h₁.Gives res → h.Gives res := by
    refine ⟨?_, ?_⟩
    · rcases hs.window hnpu hw with rfl | ⟨-, hedit, -⟩
      · exact hs
      · exact hedit.sound hs
    · unfold DeviceHeap.window at hw
      dsimp only at hw
      split_ifs at hw
      · cases hw
        exact fun _ hg => hg
      · cases hw
        exact fun _ hg => hg.of_grow
  rcases ht : h₁.take need (alignmentFor (P.device e)) with _ | ⟨base, h₂⟩
  · simp only [ht]
    exact hgrown.2 _ (.error _)
  · simp only [ht]
    exact hgrown.2 _ (hgrown.1.gives_take ht hok managed)

theorem Sound.gives_slab (hs : h.Sound P e ok) (hok : ok need) (hgpu : (P.device e).type = .gpu)
    (hdrv : drv.Ok h.Taken) (managed : Bool) : h.Gives (h.allocateSlab P e need managed drv) := by
  unfold DeviceHeap.allocateSlab
  dsimp only
  rcases ht : h.take need (alignmentFor (P.device e)) with _ | ⟨base, h₂⟩
  · simp only []
    generalize (if slabSize P < need then alignUp need (alignmentFor (P.device e)) else slabSize P) = bytes
    rcases hc : drv.create bytes with x | ⟨buffer, base⟩
    · exact .error x
    have hedit : Edit P e ok h (h.grow (.whole (some buffer) base bytes false)) := grow_edit hdrv hgpu hc
    rcases ht' : (h.grow (.whole (some buffer) base bytes false)).take need
        (alignmentFor (P.device e)) with _ | ⟨base', h₂⟩
    · simp only [ht']
      exact Gives.of_grow (.error _)
    · simp only [ht']
      exact Gives.of_grow ((hedit.sound hs).gives_take ht' hok managed)
  · exact hs.gives_take ht hok managed

theorem Sound.gives_allocate (hs : h.Sound P e ok) (hok : ok need) (hdrv : drv.Ok h.Taken)
    (managed physical : Bool) : h.Gives (h.allocate P e need managed physical drv) := by
  unfold DeviceHeap.allocate
  cases htype : (P.device e).type with
  | pta => exact .error _
  | npu => exact hs.gives_npu hok htype managed
  | gpu =>
    simp only []
    split
    · exact hs.gives_direct hdrv managed physical
    · exact hs.gives_slab hok htype hdrv managed

/-- Null is the address of no block. -/
theorem Sound.gives_null (hs : h.Sound P e ok) : h.Gives (h, .ok 0) where
  kept := fun _ hp => hp
  fresh := by
    intro base a hbase ha
    obtain rfl := Except.ok.inj hbase
    have hpos := hs.owned_pos (hs.owned_of_live ha)
    exact absurd (hs.live_key 0 a ha).1 hpos.ne'

/-- Memory in use stays in use when memory is allocated, and is not given out. -/
theorem Sound.gives (hs : h.Sound P e fun _ => True) {op : Op} {r : Request} (hr : op.request = some r)
    (hdrv : r.driver.Ok h.Taken) : h.Gives (h.call P e op) := by
  cases op with
  | malloc r' =>
    obtain rfl := Option.some.inj hr
    simp only [DeviceHeap.call]
    split
    · exact .error _
    · split
      · exact hs.gives_null
      · split
        · exact .error _
        · exact hs.gives_allocate trivial hdrv false false
  | mallocPhysical r' =>
    obtain rfl := Option.some.inj hr
    simp only [DeviceHeap.call]
    split
    · exact .error _
    · split
      · exact hs.gives_null
      · split
        · exact .error _
        · exact hs.gives_allocate trivial hdrv false true
  | mallocManaged r' =>
    obtain rfl := Option.some.inj hr
    simp only [DeviceHeap.call]
    split
    · exact .error _
    · split
      · exact .error _
      · split
        · exact .error _
        · exact hs.gives_allocate trivial hdrv true false
  | free address => cases hr
  | reset sync => cases hr

/-- Freeing leaves all memory in use but that of the block, which stays in use in quarantine. -/
theorem used_free {p : ℕ} (hs : h.Sound P e ok) (address : ℕ) (hp : h.Used p) :
    (h.free P address).1.Used p ∨
      P.sanitize = false ∧ ∃ a, h.live.Has address a ∧ a.Occupies p := by
  unfold DeviceHeap.free
  split
  · exact .inl hp
  split
  · exact .inl hp
  rename_i a hfind
  have ha := OrdMap.find?_eq_some_iff.mp hfind
  obtain ⟨hbase, -⟩ := hs.live_key address a ha
  obtain ⟨c, hc, hcp⟩ := hp
  -- a block other than the one freed is not touched
  have hother : h.live.Has c.base c → c ≠ a → (h.drop a).live.Has c.base c := by
    intro hlive hne
    refine OrdMap.has_erase.mpr ⟨hlive, fun heq => hne ?_⟩
    rw [heq, hbase] at hlive
    exact hlive.unique ha
  by_cases hsan : P.sanitize = true
  · rw [if_pos hsan]
    refine .inl ⟨c, ?_, hcp⟩
    rcases hc with hc | hc
    · by_cases hca : c = a
      · exact .inr (List.mem_cons.mpr (.inl hca))
      · exact .inl (hother hc hca)
    · exact .inr (List.mem_cons_of_mem _ hc)
  · rw [if_neg hsan]
    rcases hc with hc | hc
    · by_cases hca : c = a
      · exact .inr ⟨by simpa using hsan, a, ha, hca ▸ hcp⟩
      · refine .inl ⟨c, .inl ?_, hcp⟩
        split
        · exact hother hc hca
        · exact hother hc hca
    · refine .inl ⟨c, .inr ?_, hcp⟩
      split
      · exact hc
      · exact hc

end DeviceHeap

/-! ## Plans -/

/-- A range that starts at a device pointer and is no longer than what is mapped there is in use. -/
theorem Heap.Good.used_lookup {P : Platform} {ok : ℕ → Prop} {s : Heap} {e address count p : ℕ} {m : Mapping}
    (hg : s.Good P ok) (hm : lookupDevicePointerOn s e address = some m) (hle : count ≤ m.size)
    (hlo : address ≤ p) (hhi : p < address + count) : (s.view e).Used p := by
  obtain ⟨a, ha, rfl⟩ := Option.map_eq_some_iff.mp hm
  unfold Runtime.findLocked at ha
  split at ha
  · cases ha
  rename_i k a' hat
  split at ha
  · cases ha
  rename_i hk
  split at ha
  · cases ha
  rename_i hin
  cases ha
  rw [ne_eq, not_not] at hk
  have hhas : s.live.Has (toLex (e, (ofLex k).2)) a := by
    rw [← hk]
    exact (OrdMap.atMost_eq_some_iff.mp hat).1
  have hlive : (s.view e).live.Has (ofLex k).2 a.toBlock := view_live_has.mpr ⟨a, hhas, rfl⟩
  have howned := (hg.sound e).owned_of_live hlive
  have hstop : a.base + a.size < 2 ^ 64 := (hg.sound e).owned_stop howned
  push Not at hin
  rw [add64_of_lt hstop] at hin
  obtain ⟨hbase, hlt⟩ := hin
  have hsize : sub64 a.size (sub64 address a.base) = a.size - (address - a.base) := by
    rw [sub64_of_le hbase (by omega), sub64_of_le (by omega) (by omega)]
  have hle : count ≤ a.size - (address - a.base) := hsize ▸ hle
  exact ⟨a.toBlock, howned, hbase.trans hlo, by omega⟩

namespace Context

variable {P : Platform} {x : Context} {c : ApiCall}

theorem classify_lookup {address : ℕ} (hd : (x.classify address).isDevice = true) :
    x.lookupDevicePointer address = some (x.classify address).map := by
  unfold Context.classify at hd ⊢
  cases hm : x.lookupDevicePointer address with
  | some m => rfl
  | none =>
    rw [hm] at hd
    dsimp only at hd
    split at hd
    · cases hd
    · cases hd

variable {ok : ℕ → Prop}

/-- All that a plan names is memory in use. -/
theorem used_plan (hx : x.Homed) (hg : x.heap.Good P ok) {stream : Option ℕ} {r : Replies} {d : ℕ} {w : Work}
    (hp : x.plan P c = some (.enqueue d w, stream, r)) {e p : ℕ} (hw : w.Names e p) :
    (x.heap.view e).Used p := by
  cases c with
  | memcpyAsync dst src count kind stream npu r =>
    have hp := (Prod.mk.inj (Option.some.inj hp)).1
    obtain ⟨hsome, rfl, rfl, hdst, hsrc⟩ := copyPlan_enqueue hp
    have hoperand : ∀ address, (x.classify address).isDevice = true → count ≤ (x.classify address).map.size →
        ∀ o : Operand, o = (x.classify address).map.operand address count → o.Names e p →
          (x.heap.view e).Used p := by
      rintro address haddress hle o rfl ⟨⟨b, hb, hbe⟩, hlo, hhi⟩
      have hcurrent := (hx.classify haddress).2 count b hb
      rw [← hbe, hcurrent]
      exact hg.used_lookup (classify_lookup haddress) hle hlo hhi
    obtain ⟨o, ho, hnames⟩ := hw
    unfold copyWork at ho
    by_cases hdd : (x.classify dst).isDevice = true
    · by_cases hsd : (x.classify src).isDevice = true
      · rw [if_pos ⟨hdd, hsd⟩] at ho
        rcases List.mem_pair.mp ho with rfl | rfl
        · exact hoperand dst hdd (hdst hdd) _ rfl hnames
        · exact hoperand src hsd (hsrc hsd) _ rfl hnames
      · rw [if_neg fun hboth => hsd hboth.2, if_pos hdd] at ho
        exact hoperand dst hdd (hdst hdd) _ (List.mem_singleton.mp ho) hnames
    · have hsd := hsome.resolve_left hdd
      rw [if_neg fun hboth => hdd hboth.1, if_neg hdd] at ho
      exact hoperand src hsd (hsrc hsd) _ (List.mem_singleton.mp ho) hnames
  | memsetAsync dst count stream r =>
    have hp := (Prod.mk.inj (Option.some.inj hp)).1
    unfold Context.memsetPlan at hp
    split_ifs at hp
    split at hp
    · cases hp
    next m hm =>
      split_ifs at hp with hlt
      obtain ⟨rfl, rfl⟩ := Plan.enqueue.inj hp
      obtain ⟨o, ho, ⟨b, hb, hbe⟩, hlo, hhi⟩ := hw
      obtain rfl := List.mem_singleton.mp ho
      have hcurrent := (hx.heap.lookup hm).2 count b hb
      rw [← hbe, hcurrent]
      exact hg.used_lookup hm (not_lt.mp hlt) hlo hhi
  | launchKernel stub stream l r =>
    simp only [Context.plan] at hp
    split at hp
    · cases hp
    · split at hp
      · cases hp
      · obtain ⟨-, rfl⟩ := launchPlan_enqueue (Prod.mk.inj (Option.some.inj hp)).1
        obtain ⟨o, ho, -⟩ := hw
        cases ho
  | launchFunction func stream l r =>
    simp only [Context.plan] at hp
    split at hp
    · cases hp
    · obtain ⟨-, rfl⟩ := launchPlan_enqueue (Prod.mk.inj (Option.some.inj hp)).1
      obtain ⟨o, ho, -⟩ := hw
      cases ho
  | _ => cases hp

end Context

/-! ## Runs -/

/-- The call of the allocator that a call is. -/
def ApiCall.op : ApiCall → Option Op
  | .malloc r => some (.malloc r)
  | .mallocPhysical r => some (.mallocPhysical r)
  | .mallocManaged r => some (.mallocManaged r)
  | .free address => some (.free address)
  | _ => none

namespace Streams

variable {s s' : Streams} {e p : ℕ}

theorem Pending.congr (hboard : s'.board = s.board) (h : s'.Pending e p) : s.Pending e p := by
  unfold Pending at h
  rwa [hboard] at h

/-- Completing a command leaves the others pending. -/
theorem Pending.complete {i : ℕ} (h : ({ s with board := s.board.complete i } : Streams).Pending e p) :
    s.Pending e p := by
  obtain ⟨j, c, w, hc, hdone, hbody, hw⟩ := h
  rw [Queues.Board.complete_log] at hc
  exact ⟨j, c, w, hc, fun hj => hdone (s.board.done_subset_complete i hj), hbody, hw⟩

/-- A command that is issued is the only one that was not pending before. -/
theorem Pending.issue {c : Command} (hboard : s'.board = s.board.issue c) (h : s'.Pending e p) :
    s.Pending e p ∨ ∃ w, c.body = .work w ∧ w.Names e p := by
  obtain ⟨j, c', w, hc, hdone, hbody, hw⟩ := h
  rw [hboard, Queues.Board.issue_log] at hc
  rw [hboard, Queues.Board.issue_done] at hdone
  rcases Queues.getElem?_append_some hc with hc | ⟨-, rfl⟩
  · exact .inl ⟨j, c', w, hc, hdone, hbody, hw⟩
  · exact .inr ⟨w, hbody, hw⟩

end Streams

namespace Context

variable {P : Platform} {x : Context} {c : ApiCall} {op : Op} {m : Move}

/-- The driver gives out memory of the current device that is not taken. -/
def DriverOk (x : Context) (m : Move) : Prop :=
  ∀ c r, m = .call c → c.request = some r → r.driver.Ok (x.heap.Taken x.current)

/-- No pending command names the memory that the move frees, unless that is kept in quarantine. -/
def FreesSettled (P : Platform) (x : Context) (m : Move) : Prop :=
  ∀ address a, m = .call (.free address) → P.sanitize = false →
    x.heap.live.Has (toLex (x.current, address)) a → ∀ p, a.Occupies p → ¬x.streams.Pending x.current p

/-- All that pending commands name is memory in use. -/
structure Keeps (P : Platform) (x : Context) : Prop where
  homed : x.Homed
  good : x.heap.Good P fun _ => True
  used : ∀ e p, x.streams.Pending e p → (x.heap.view e).Used p

theorem Keeps.empty : ({} : Context).Keeps P where
  homed := ⟨.empty, .empty⟩
  good := .empty
  used := by
    rintro e p ⟨i, c, w, hc, -⟩
    cases hc

theorem call_op (h : c.op = some op) : x.call P c = allocator P x op := by
  cases c <;> cases h <;> rfl

/-- Only calls of the allocator change the device memory. -/
theorem call_heap (h : c.op = none) : (x.call P c).1.heap = x.heap := by
  cases c with
  | malloc r => cases h
  | mallocPhysical r => cases h
  | mallocManaged r => cases h
  | free address => cases h
  | setDevice device acquire => cases acquire <;> rfl
  | mallocHost out size acquire mapped =>
    simp only [call, grxMallocHost]
    repeat' split
    all_goals rfl
  | freeHost address =>
    simp only [call, noHandle, grxFreeHost]
    repeat' split
    all_goals rfl
  | memcpyAsync dst src count kind stream npu r => exact (carryOut_heap P x _ stream r).1
  | memsetAsync dst count stream r => exact (carryOut_heap P x _ stream r).1
  | launchKernel stub stream l r =>
    simp only [call, noHandle, grxLaunchKernel]
    repeat' split
    · rfl
    · rfl
    · exact (carryOut_heap P _ _ stream r).1
  | launchFunction func stream l r =>
    simp only [call, noHandle, grxLaunchFunction]
    split
    · rfl
    · exact (carryOut_heap P x _ stream r).1
  | _ => rfl

theorem op_request {r : Request} (h : c.op = some op) (hr : op.request = some r) : c.request = some r := by
  cases c <;> cases h <;> exact hr

theorem op_ne_reset (h : c.op = some op) (sync : Option GrxError) : op ≠ .reset sync := by
  rintro rfl
  cases c <;> cases h

/-- What is asked of a call of the allocator. -/
theorem DriverOk.meets (h : x.DriverOk (.call c)) (hop : c.op = some op) :
    (⟨x.current, op⟩ : Call).Meets P (fun _ => True) x.heap where
  driver := fun r hr => h c r rfl (op_request hop hr)
  size := fun _ _ => trivial
  reset := fun sync hsync => absurd hsync (op_ne_reset hop sync)

theorem Keeps.driver (h : x.Keeps P) (hdrv : x.DriverOk (.call c)) (hop : c.op = some op) {r : Request}
    (hreq : op.request = some r) : r.driver.Ok (x.heap.view x.current).Taken :=
  ((hdrv.meets (P := P) hop).view h.good.linked).driver r hreq

/-- Memory that is allocated is not named by a pending command. -/
theorem Keeps.fresh (h : x.Keeps P) (hdrv : x.DriverOk (.call c)) {r : Request} (hr : c.request = some r)
    {base : ℕ} {a : Allocation} (hbase : (x.call P c).2 = .ok base)
    (ha : (x.call P c).1.heap.live.Has (toLex (x.current, base)) a) {p : ℕ} (hp : a.Occupies p) :
    ¬x.streams.Pending x.current p := by
  obtain ⟨op, hop, hreq⟩ : ∃ op, c.op = some op ∧ op.request = some r := by
    cases c <;> cases hr <;> exact ⟨_, rfl, rfl⟩
  have hrefines := h.good.call_refines (hdrv.meets hop)
  have hgives := (h.good.sound x.current).gives hreq (h.driver hdrv hop hreq)
  rw [call_op hop] at hbase ha
  have hlive : ((x.heap.call P ⟨x.current, op⟩).1.view x.current).live.Has base a.toBlock :=
    view_live_has.mpr ⟨a, ha, rfl⟩
  rw [hrefines.view] at hlive
  exact fun hpending => hgives.fresh base a.toBlock (hrefines.result.symm.trans hbase) hlive p hp (h.used _ p hpending)

/-- A call of the allocator keeps what pending commands name, if it does not free it. -/
theorem Keeps.used_op (h : x.Keeps P) (hdrv : x.DriverOk (.call c)) (hsettled : x.FreesSettled P (.call c))
    (hop : c.op = some op) {e p : ℕ} (hpending : x.streams.Pending e p) :
    ((x.heap.call P ⟨x.current, op⟩).1.view e).Used p := by
  have hrefines := h.good.call_refines (hdrv.meets hop)
  have hused := h.used e p hpending
  by_cases he : e = x.current
  · subst he
    rw [hrefines.view]
    have hs := h.good.sound x.current
    cases hreq : op.request with
    | some r => exact (hs.gives hreq (h.driver hdrv hop hreq)).kept p hused
    | none =>
      cases op with
      | free address =>
        rcases DeviceHeap.used_free hs address hused with hkept | ⟨hsan, a, ha, hp⟩
        · exact hkept
        · -- the block that is freed is not the one that the command names
          obtain ⟨al, hal, rfl⟩ := view_live_has.mp ha
          have hfree : c = .free address := by
            cases c <;> cases hop <;> rfl
          exact absurd hpending (hsettled address al (congrArg Move.call hfree) hsan hal p hp)
      | malloc r => cases hreq
      | mallocPhysical r => cases hreq
      | mallocManaged r => cases hreq
      | reset sync => exact absurd rfl (op_ne_reset hop sync)
  · rw [hrefines.others e he]
    exact hused

theorem Keeps.step (h : x.Keeps P) (hhomes : x.DriverHomes m) (hdrv : x.DriverOk m)
    (hsettled : x.FreesSettled P m) : (x.step P m).Keeps P := by
  refine ⟨h.homed.step hhomes, ?_, ?_⟩
  · cases m with
    | complete i => exact h.good
    | call c =>
      cases hop : c.op with
      | some op =>
        rw [Context.step, call_op hop]
        exact h.good.step (hdrv.meets hop)
      | none =>
        rw [Context.step, call_heap hop]
        exact h.good
  · intro e p hpending
    cases m with
    | complete i => exact h.used e p hpending.complete
    | call c =>
      rw [Context.step] at hpending ⊢
      cases hop : c.op with
      | some op =>
        rw [call_op hop] at hpending ⊢
        exact h.used_op hdrv hsettled hop hpending
      | none =>
        rw [call_heap hop]
        rcases call_cases P x c with ⟨-, hs⟩ | ⟨t, -, hj⟩ | ⟨-, hev⟩ | ⟨a, ha, hquiet, hs⟩
        · exact h.used e p (hpending.congr (congrArg Streams.board hs))
        · exact h.used e p (hpending.congr hj.board)
        · exact h.used e p (hpending.congr hev.board)
        · have hresolved := Streams.resolve_board P x.streams a.stream a.device a.replies
          rw [hs] at hpending
          unfold Ask.submit at hpending
          rcases Streams.submit_cases P x.streams a.stream a.device a.body a.replies a.note with
            ⟨_, heq, -⟩ | ⟨t, ht, -, heq⟩
          · rw [heq] at hpending
            exact h.used e p (hpending.congr hresolved)
          · rw [heq] at hpending
            have hissues := Streams.issues_issued ht a.body hquiet
            rcases hpending.issue hissues.board with hpending | ⟨w, hbody, hw⟩
            · exact h.used e p (hpending.congr hresolved)
            · exact used_plan h.homed h.good (asks_work ha hbody) hw

end Context

/-- No command that was enqueued before an allocation, and is not complete by the end of the run, names memory of
the allocation. -/
def Unnamed (P : Platform) (ms : List Move) : Prop :=
  ∀ before c after r base a i cmd w p, ms = before ++ .call c :: after → c.request = some r →
    ((Runs.after (Context.step P) {} before).call P c).2 = .ok base →
    ((Runs.after (Context.step P) {} before).call P c).1.heap.live.Has
      (toLex ((Runs.after (Context.step P) {} before).current, base)) a → a.Occupies p →
    (Runs.after (Context.step P) {} before).streams.board.log[i]? = some cmd → cmd.body = .work w →
    i ∉ (Runs.after (Context.step P) {} ms).streams.board.done →
      ¬w.Names (Runs.after (Context.step P) {} before).current p

namespace Context

variable {P : Platform}

/-- What is complete stays complete. -/
theorem done_step (x : Context) (m : Move) : x.streams.board.done ⊆ (x.step P m).streams.board.done := by
  cases m with
  | complete i => exact x.streams.board.done_subset_complete i
  | call c =>
    have hkeep : ∀ {s : Streams}, s.board.done = x.streams.board.done →
        x.streams.board.done ⊆ s.board.done := fun h => h ▸ subset_rfl
    rw [step]
    rcases call_cases P x c with ⟨-, hs⟩ | ⟨t, -, hj⟩ | ⟨-, hev⟩ | ⟨a, -, hquiet, hs⟩
    · exact hkeep (congrArg (fun s : Streams => s.board.done) hs)
    · exact hkeep (congrArg Queues.Board.done hj.board)
    · exact hkeep (congrArg Queues.Board.done hev.board)
    · have hresolved := Streams.resolve_board P x.streams a.stream a.device a.replies
      rw [hs]
      unfold Ask.submit
      rcases Streams.submit_cases P x.streams a.stream a.device a.body a.replies a.note with
        ⟨_, heq, -⟩ | ⟨t, ht, -, heq⟩
      · rw [heq]
        exact hkeep (congrArg Queues.Board.done hresolved)
      · rw [heq]
        have hboard := (Streams.issues_issued ht a.body hquiet).board
        refine hkeep ?_
        rw [hboard, Queues.Board.issue_done, hresolved]

theorem done_after (x : Context) (ms : List Move) :
    x.streams.board.done ⊆ (Runs.after (step P) x ms).streams.board.done :=
  Runs.invariant_always (I := fun y : Context => x.streams.board.done ⊆ y.streams.board.done)
    (fun y m h => h.trans (done_step y m)) x ms subset_rfl

end Context

/-- In a run that frees nothing that a pending command names, no memory is given out that one names. -/
theorem unnamed_of_settled (P : Platform) (ms : List Move)
    (hdriver : Runs.Along (Context.step P) (fun x m => x.DriverHomes m ∧ x.DriverOk m) {} ms)
    (hsettled : Runs.Along (Context.step P) (Context.FreesSettled P) {} ms) : Unnamed P ms := by
  rintro before c after r base a i cmd w p rfl hr hbase ha hp hcmd hbody hdone hw
  obtain ⟨hbefore, hcall⟩ := (Runs.along_append _ before _).mp (hdriver.and hsettled)
  have hkeeps : (Runs.after (Context.step P) {} before).Keeps P := by
    refine Runs.invariant ?_ hbefore .empty
    rintro x m hx ⟨⟨hhomes, hdrv⟩, hsettled⟩
    exact hx.step hhomes hdrv hsettled
  refine hkeeps.fresh hcall.1.1.2 hr hbase ha hp ⟨i, cmd, w, hcmd, fun hi => hdone ?_, hbody, hw⟩
  rw [Runs.after_append]
  exact Context.done_after _ _ hi

/-! ## A block that is given out again -/

/-- A block of 256 bytes of device 0, where the driver's next buffer is at an address. -/
def mallocBlock (next : ℕ) : ApiCall :=
  .malloc { size := 256, driver := Driver.bump ⟨0, next⟩ next }

theorem mallocBlock_driver {x : Context} {next : ℕ} (hx : x.current = 0) (hn : 0 < next)
    (hends : x.heap.EndsBy 0 next) :
    x.DriverHomes (.call (mallocBlock next)) ∧ x.DriverOk (.call (mallocBlock next)) := by
  constructor
  · rintro c r ⟨⟩ hr
    rw [← Option.some.inj hr, hx]
    exact bump_homes 0 next next
  · rintro c r ⟨⟩ hr
    rw [← Option.some.inj hr, hx]
    exact hends.bump_ok hn ⟨0, next⟩

theorem driver_of_request {x : Context} {m : Move} (h : ∀ c, m = .call c → c.request = none) :
    x.DriverHomes m ∧ x.DriverOk m := by
  refine ⟨driverHomes_of_request h, fun c r hm hr => ?_⟩
  rw [h c hm] at hr
  cases hr

/-- A stream, a block of memory, and a memset of it on the stream. -/
def memsetBlock : List Move :=
  [.call (.streamCreate true 0 {}), .call (mallocBlock 4096), .call (.memsetAsync 4096 256 (some 1) {})]

/-- The block is freed, and one of its size allocated. -/
def freeAndMalloc : List Move :=
  [.call (.free 4096), .call (mallocBlock (2 ^ 30))]

theorem memsetBlock_driver :
    Runs.Along (Context.step plain) (fun x m => x.DriverHomes m ∧ x.DriverOk m) {} memsetBlock := by
  refine ⟨driver_of_request ?_, mallocBlock_driver rfl (by norm_num) (by decide +kernel), driver_of_request ?_, trivial⟩
  · rintro c ⟨⟩
    rfl
  · rintro c ⟨⟩
    rfl

theorem freeAndMalloc_driver {x : Context} (hx : x.current = 0)
    (hends : (x.step plain (.call (.free 4096))).heap.EndsBy 0 (2 ^ 30)) :
    Runs.Along (Context.step plain) (fun x m => x.DriverHomes m ∧ x.DriverOk m) x freeAndMalloc := by
  refine ⟨driver_of_request ?_, mallocBlock_driver hx (by norm_num) hends, trivial⟩
  rintro c ⟨⟩
  rfl

theorem freesSettled_of_ne {x : Context} {m : Move} (h : ∀ address, m ≠ .call (.free address)) :
    x.FreesSettled plain m := by
  intro address a hm
  exact absurd hm (h address)

/-- The memset is complete before the block is freed. -/
theorem unnamed_of_settled_complete : Unnamed plain (memsetBlock ++ .complete 0 :: freeAndMalloc) := by
  refine unnamed_of_settled plain _ ?_ ?_
  · rw [Runs.along_append, Runs.along_cons]
    refine ⟨memsetBlock_driver, driver_of_request (by rintro c ⟨⟩), freeAndMalloc_driver ?_ ?_⟩
    · decide +kernel
    · decide +kernel
  · rw [Runs.along_append, Runs.along_cons]
    refine ⟨⟨freesSettled_of_ne ?_, freesSettled_of_ne ?_, freesSettled_of_ne ?_, trivial⟩, freesSettled_of_ne ?_,
      ?_, freesSettled_of_ne ?_, trivial⟩
    · rintro address ⟨⟩
    · rintro address ⟨⟩
    · rintro address ⟨⟩
    · rintro address ⟨⟩
    · -- no command is pending
      rintro address a - - - p - ⟨i, cmd, w, hcmd, hdone, -⟩
      have hlog : (Runs.after (Context.step plain) {} (memsetBlock ++ [.complete 0])).streams.board.log.length = 1 := by
        decide +kernel
      have hzero : 0 ∈ (Runs.after (Context.step plain) {} (memsetBlock ++ [.complete 0])).streams.board.done := by
        decide +kernel
      rw [Runs.after_append] at hlog hzero
      have hi := (List.getElem?_eq_some_iff.mp hcmd).1
      have hi : i < 1 := hlog ▸ hi
      obtain rfl : i = 0 := by omega
      exact hdone hzero
    · rintro address ⟨⟩

/-- The block is freed while the memset of it is pending, and is the block of the next allocation. -/
theorem unnamed_not : ¬∀ (P : Platform) (ms : List Move),
    Runs.Along (Context.step P) (fun x m => x.DriverHomes m ∧ x.DriverOk m) {} ms → Unnamed P ms := by
  intro h
  have hdriver : Runs.Along (Context.step plain) (fun x m => x.DriverHomes m ∧ x.DriverOk m) {}
      (memsetBlock ++ freeAndMalloc) := by
    rw [Runs.along_append]
    exact ⟨memsetBlock_driver, freeAndMalloc_driver (by decide +kernel) (by decide +kernel)⟩
  have hunnamed := h plain _ hdriver (memsetBlock ++ [.call (.free 4096)]) (mallocBlock (2 ^ 30)) []
    { size := 256, driver := Driver.bump ⟨0, 2 ^ 30⟩ (2 ^ 30) } 4096
    { buffer := some ⟨0, 4096⟩, base := 4096, size := 256, device := 0 } 0
    ⟨⟨0, 1⟩, [], .work (.fill ⟨some ⟨0, 4096⟩, 0, 4096, 256⟩)⟩ (.fill ⟨some ⟨0, 4096⟩, 0, 4096, 256⟩) 4096
    rfl rfl (by decide +kernel) (by decide +kernel) ⟨le_rfl, by norm_num⟩ (by decide +kernel) rfl (by decide +kernel)
  refine hunnamed ⟨_, List.mem_singleton_self _, ⟨⟨0, 4096⟩, rfl, ?_⟩, le_rfl, by norm_num⟩
  decide +kernel

end Grxcp.Runtime
