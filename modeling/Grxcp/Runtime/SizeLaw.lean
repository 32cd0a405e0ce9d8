import Grxcp.Runtime.Ownership

/-!
# The size law of an allocation

A request whose size, redzone and alignment do not add up past 2^64 is rounded to a multiple of the
alignment that holds it. Where every request so far was such a request, and none was for no bytes at
all, a successful call returns a range that is inside one buffer, apart from every other allocation
and resolved to its own at every address, and a failed call changes nothing that a later one can see
(`allocation_size_law`). A size within an alignment unit of 2^64 rounds to nothing, and the call
succeeds (`allocation_size_law_wrapped`).
-/

namespace Grxcp.Runtime

/-! ## Rounding -/

private theorem land_not_add_land (x m : BitVec 64) :
    (x &&& ~~~m).toNat + (x &&& m).toNat = x.toNat := by
  have hdisj : (x &&& ~~~m) &&& (x &&& m) = 0#64 := by
    ext i
    simp
    grind
  have hor : (x &&& ~~~m) ||| (x &&& m) = x := by
    ext i
    simp
    grind
  rw [← BitVec.toNat_add_of_and_eq_zero hdisj, BitVec.add_eq_or_of_and_eq_zero _ _ hdisj, hor]

/-- `align_up` of a size that does not wrap takes away what the mask has of the sum. -/
theorem alignUp_add_land {v a : ℕ} (ha : 0 < a) (h : v + (a - 1) < 2 ^ 64) :
    alignUp v a + ((v + (a - 1)) &&& (a - 1)) = v + (a - 1) := by
  have hone : (1 : BitVec 64).toNat = 1 := rfl
  have hsum : (BitVec.ofNat 64 v + BitVec.ofNat 64 a - 1).toNat = v + (a - 1) := by
    simp only [BitVec.toNat_sub, BitVec.toNat_add, BitVec.toNat_ofNat, hone]
    omega
  have hmask : (BitVec.ofNat 64 a - 1).toNat = a - 1 := by
    simp only [BitVec.toNat_sub, BitVec.toNat_ofNat, hone]
    omega
  have hsplit :=
    land_not_add_land (BitVec.ofNat 64 v + BitVec.ofNat 64 a - 1) (BitVec.ofNat 64 a - 1)
  rw [BitVec.toNat_and _ (BitVec.ofNat 64 a - 1), hsum, hmask] at hsplit
  exact hsplit

theorem le_alignUp {v a : ℕ} (ha : 0 < a) (h : v + (a - 1) < 2 ^ 64) :
    v ≤ alignUp v a ∧ alignUp v a < v + a := by
  have hle : ((v + (a - 1)) &&& (a - 1)) ≤ a - 1 := Nat.and_le_right
  have := alignUp_add_land ha h
  omega

theorem alignUp_mod {v k : ℕ} (h : v + (2 ^ k - 1) < 2 ^ 64) : alignUp v (2 ^ k) % 2 ^ k = 0 := by
  have hpos : 0 < 2 ^ k := by positivity
  have hsum := alignUp_add_land hpos h
  rw [Nat.and_two_pow_sub_one_eq_mod] at hsum
  have hdiv := Nat.mod_add_div (v + (2 ^ k - 1)) (2 ^ k)
  have hmul : alignUp v (2 ^ k) = 2 ^ k * ((v + (2 ^ k - 1)) / 2 ^ k) := by omega
  rw [hmul, Nat.mul_mod_right]

theorem alignmentFor_bounds (d : Device) : 256 ≤ alignmentFor d ∧ alignmentFor d ≤ 2 ^ 32 := by
  have hmin : kMinAlign = 256 := rfl
  have hlt := d.cacheLineSize.toInt_lt
  unfold alignmentFor
  dsimp only
  split
  · have hround := le_alignUp (v := d.cacheLineSize.toInt.toNat) (a := kMinAlign) (by omega)
      (by omega)
    split <;> omega
  · rw [if_neg (lt_irrefl _)]
    omega

/-- The cache line of a device, if it has one, is a power of two. -/
def Device.LineOk (d : Device) : Prop :=
  0 < d.cacheLineSize.toInt → ∃ k, d.cacheLineSize.toInt.toNat = 2 ^ k

theorem alignmentFor_pow {d : Device} (hd : d.LineOk) : ∃ k, alignmentFor d = 2 ^ k := by
  have hmin : kMinAlign = 2 ^ 8 := rfl
  have hlt := d.cacheLineSize.toInt_lt
  unfold alignmentFor
  dsimp only
  split
  · rename_i hpos
    obtain ⟨k, hk⟩ := hd hpos
    split
    · rename_i hline
      refine ⟨k, ?_⟩
      -- a line above the minimum is a multiple of it already
      have hbound : d.cacheLineSize.toInt.toNat + (2 ^ 8 - 1) < 2 ^ 64 := by omega
      have hround := le_alignUp (by norm_num) hbound
      have hmod := alignUp_mod hbound
      rw [hk, hmin] at hline
      have hk8 : 8 < k := (Nat.pow_lt_pow_iff_right (by norm_num)).mp hline
      have hdvd : (2 ^ 8 : ℕ) ∣ 2 ^ k := pow_dvd_pow 2 hk8.le
      rw [hk] at hround hmod
      rw [hk, hmin]
      omega
    · exact ⟨8, rfl⟩
  · exact ⟨8, by rw [if_neg (lt_irrefl _)]; rfl⟩

/-- A size rounds without wrapping: with the redzone and the alignment it fits in 64 bits. -/
def Unwrapped (P : Platform) (e n : ℕ) : Prop :=
  n + sanitizeRedzoneBytes P + (alignmentFor (P.device e) - 1) < 2 ^ 64

theorem Unwrapped.need {P : Platform} {e n : ℕ} (h : Unwrapped P e n) :
    n + sanitizeRedzoneBytes P ≤ need P e n ∧
      need P e n < n + sanitizeRedzoneBytes P + alignmentFor (P.device e) := by
  have hpos := (alignmentFor_bounds (P.device e)).1
  unfold Unwrapped at h
  unfold Runtime.need
  rw [add64_of_lt (by omega)]
  exact le_alignUp (by omega) h

theorem Unwrapped.need_mod {P : Platform} {e n : ℕ} (h : Unwrapped P e n)
    (hline : (P.device e).LineOk) : Runtime.need P e n % alignmentFor (P.device e) = 0 := by
  obtain ⟨k, hk⟩ := alignmentFor_pow hline
  have hpos := (alignmentFor_bounds (P.device e)).1
  unfold Unwrapped at h
  unfold Runtime.need
  rw [add64_of_lt (by omega)]
  rw [hk] at h ⊢
  exact alignUp_mod h

/-! ## Statements -/

/-- The driver's buffers are aligned. -/
def Driver.Aligned (drv : Driver) (align : ℕ) : Prop :=
  ∀ n buffer base, drv n = .made buffer base → base % align = 0

/-- A call of the kind the law is about: an allocation or a free, with a driver that gives out aligned
memory that is not taken, and a size that rounds to something without wrapping. -/
structure Call.Rounds (P : Platform) (s : Heap) (c : Call) : Prop where
  driver : ∀ r, c.op.request = some r → r.driver.Ok (s.Taken c.device) ∧
    r.driver.Aligned (alignmentFor (P.device c.device))
  size : ∀ n, c.op.asks (P.device c.device) = some n → 0 < n + sanitizeRedzoneBytes P ∧ Unwrapped P c.device n
  noReset : ∀ sync, c.op ≠ .reset sync

/-- The allocation `a` serves a request of `size` bytes on device `e` with the pointer `p`, out of a
buffer of `len` bytes at `lo`. -/
structure Served (P : Platform) (s : Heap) (e size p : ℕ) (a : Allocation) (lo len : ℕ) : Prop where
  live : s.live.Has (toLex (e, p)) a
  holds : size + sanitizeRedzoneBytes P ≤ a.size
  rounded : a.size < size + sanitizeRedzoneBytes P + alignmentFor (P.device e)
  multiple : a.size % alignmentFor (P.device e) = 0
  aligned : p % alignmentFor (P.device e) = 0
  buffer : (∃ w, s.slabs[a.slab]? = some w ∧ a.direct = false ∧ w.device = e ∧
      w.buffer = a.buffer ∧ w.base = lo ∧ w.size = len) ∨
    a.direct = true ∧ lo = p ∧ len = a.size
  inside : lo ≤ p ∧ p + a.size ≤ lo + len ∧ lo + len < 2 ^ 64
  apart : ∀ b c, s.live.Has (toLex (e, b)) c → b ≠ p → b + c.size ≤ p ∨ p + a.size ≤ b
  lookup : ∀ x, p ≤ x → x < p + size → lookupDevicePointerOn s e x =
    some { buffer := a.buffer, base := p, offset := x - lo, size := p + a.size - x, device := e,
           managed := a.managed, physical := a.physical }

variable {P : Platform} {s s' : Heap} {e : ℕ}

/-! ## A call that succeeds -/

/-- A live allocation is found by every address that it has, where no allocation is empty. -/
theorem Heap.Good.findLocked (hg : s.Good P (0 < ·)) {a : Allocation} {b x : ℕ}
    (ha : s.live.Has (toLex (e, b)) a) (hx : a.Occupies x) (hlt : a.base + a.size < 2 ^ 64) :
    Runtime.findLocked s e x = some a := by
  obtain ⟨hdev, rfl⟩ := hg.linked.live_key _ _ _ ha
  have hs := hg.sound e
  have hmost : s.live.atMost (toLex (e, x)) = some (toLex (e, a.base), a) := by
    refine OrdMap.atMost_eq_some_iff.mpr ⟨ha, ?_, fun j c hc hjx => ?_⟩
    · rw [Prod.Lex.toLex_le_toLex]
      exact .inr ⟨rfl, hx.1⟩
    · have hj : j = toLex ((ofLex j).1, (ofLex j).2) := rfl
      rw [hj] at hc hjx ⊢
      rw [Prod.Lex.toLex_le_toLex] at hjx ⊢
      rcases hjx with hjx | ⟨he, hjx⟩
      · exact .inl hjx
      refine .inr ⟨he, ?_⟩
      simp only at he hjx ⊢
      by_contra hgt
      -- a block that begins between the base and the address has its own base in common with `a`
      rw [he] at hc
      obtain ⟨-, hbase⟩ := hg.linked.live_key _ _ _ hc
      have hclive : (s.view e).live.Has c.base c.toBlock := view_live_has.mpr ⟨c, hbase ▸ hc, rfl⟩
      have halive : (s.view e).live.Has a.base a.toBlock := view_live_has.mpr ⟨a, ha, rfl⟩
      have hsize := (hs.live_key _ _ hclive).2.2
      have hxe := hx.2
      have hsame := hs.live_live _ _ c.base halive hclive ⟨by omega, by omega⟩ ⟨le_rfl, by omega⟩
      omega
  unfold Runtime.findLocked
  rw [hmost]
  have h₁ := hx.1
  have h₂ := hx.2
  have h₃ : ¬(x < a.base ∨ add64 a.base a.size ≤ x) := by
    rw [add64_of_lt hlt]
    omega
  simp [h₃]

/-- The block that an allocation made serves its request. -/
theorem Heap.Good.served (hg : s.Good P (0 < ·)) {size need : ℕ} {managed physical : Bool}
    {a : Allocation} (ha : s.live.Has (toLex (e, a.base)) a)
    (hfits : DeviceHeap.Fits P e need managed physical a.toBlock)
    (hdirect : a.direct = true → a.base % alignmentFor (P.device e) = 0)
    (hle : size + sanitizeRedzoneBytes P ≤ need)
    (hlt : need < size + sanitizeRedzoneBytes P + alignmentFor (P.device e))
    (hmod : need % alignmentFor (P.device e) = 0) : ∃ lo len, Served P s e size a.base a lo len := by
  have hs := hg.sound e
  have halive : (s.view e).live.Has a.base a.toBlock := view_live_has.mpr ⟨a, ha, rfl⟩
  have hsize : a.size = need := hfits.size
  have hbuffer : ∃ lo len, ((∃ w, s.slabs[a.slab]? = some w ∧ a.direct = false ∧ w.device = e ∧
      w.buffer = a.buffer ∧ w.base = lo ∧ w.size = len) ∨
        a.direct = true ∧ lo = a.base ∧ len = a.size) ∧
      (lo ≤ a.base ∧ a.base + a.size ≤ lo + len ∧ lo + len < 2 ^ 64) ∧ a.offset = a.base - lo := by
    cases hd : a.direct with
    | false =>
      obtain ⟨hdev, -⟩ := hg.linked.live_key _ _ _ ha
      obtain ⟨w, hw, he, hb⟩ := hg.linked.live_slab _ _ ha hd
      have hmem : w.region (s.free.fiber a.slab) ∈ (s.view e).regions :=
        mem_regionsOf.mpr ⟨a.slab, w, hw, he.trans hdev, rfl⟩
      obtain ⟨r, hr, hin⟩ := hs.owned_in _ (hs.owned_of_live halive) hd
      obtain rfl := hs.toLaid.unique hmem hr hb hin.start
      exact ⟨w.base, w.size, .inl ⟨w, hw, rfl, he.trans hdev, hin.buffer.symm, rfl, rfl⟩,
        ⟨hb.1, hin.stop, (hs.proper _ hmem).stop⟩, hin.offset⟩
    | true =>
      obtain ⟨halone, -, -⟩ := hs.owned_out _ (hs.owned_of_live halive) hd
      refine ⟨a.base, a.size, .inr ⟨rfl, rfl, rfl⟩, ⟨le_rfl, le_rfl, halone.stop⟩, ?_⟩
      rw [Nat.sub_self]
      exact halone.offset
  obtain ⟨lo, len, hbuf, hin, hoffset⟩ := hbuffer
  refine ⟨lo, len, ha, by omega, by omega, by rw [hsize]; exact hmod, ?_, hbuf, hin, ?_, ?_⟩
  · cases hd : a.direct with
    | false => exact hfits.aligned hd
    | true => exact hdirect hd
  · intro b c hc hne
    obtain ⟨-, rfl⟩ := hg.linked.live_key _ _ _ hc
    have hclive : (s.view e).live.Has c.base c.toBlock := view_live_has.mpr ⟨c, hc, rfl⟩
    have hcsize := (hs.live_key _ _ hclive).2.2
    have hasize := (hs.live_key _ _ halive).2.2
    by_contra hov
    push Not at hov
    -- the higher of the two bases would be in both blocks
    rcases le_total c.base a.base with h | h
    · exact hne (hs.live_live _ _ a.base hclive halive ⟨h, hov.1⟩ ⟨le_rfl, by omega⟩)
    · exact hne (hs.live_live _ _ c.base hclive halive ⟨le_rfl, by omega⟩ ⟨h, hov.2⟩)
  · intro x hx hx'
    have hfound := hg.findLocked ha ⟨hx, by omega⟩ (by omega)
    have hdev : a.device = e := hfits.owner
    unfold lookupDevicePointerOn
    rw [hfound]
    simp only [Option.map_some, Option.some.injEq]
    rw [sub64_of_le hx (by omega), sub64_of_le (by omega) (by omega), add64_of_lt (by omega), hdev]
    rw [Mapping.mk.injEq]
    refine ⟨rfl, rfl, ?_, ?_, rfl, rfl, rfl⟩
    · omega
    · omega

/-! ## A call that fails -/

namespace DeviceHeap

variable {h h' : DeviceHeap} {ok : ℕ → Prop}

/-- The second heap is the first, but for an NPU's window that nothing has asked for yet. -/
inductive Windowed (P : Platform) (e : ℕ) (h : DeviceHeap) : DeviceHeap → Prop
  | same : Windowed P e h h
  | window (h' : DeviceHeap) (npu : (P.device e).type = .npu) (none : h.live = .empty)
      (ok : h.window P e = .ok h') (again : h'.window P e = .ok h') (live : h'.live = .empty) :
      Windowed P e h h'

theorem Windowed.live (hw : Windowed P e h h') : h'.live = h.live := by
  cases hw with
  | same => rfl
  | window h' npu none ok again live => rw [none, live]

/-- What an NPU's heap is after its window is asked for. -/
theorem Sound.windowed (hs : h.Sound P e ok) (hnpu : (P.device e).type = .npu)
    (hw : h.window P e = .ok h') : Windowed P e h h' := by
  rcases hs.window hnpu hw with rfl | ⟨hnone, hedit, hlive⟩
  · exact .same
  · have hempty : h.live = .empty := by
      refine OrdMap.ext fun b a => ?_
      simp only [OrdMap.not_has_empty, iff_false]
      intro ha
      have ho := hs.owned_of_live ha
      cases hd : a.direct with
      | false =>
        obtain ⟨r, hr, -⟩ := hs.owned_in a ho hd
        rw [hnone] at hr
        cases hr
      | true => exact (hs.owned_out a ho hd).2.1 hnpu
    refine .window h' hnpu hempty hw ?_ (hlive.trans hempty)
    unfold DeviceHeap.window at hw ⊢
    dsimp only at hw ⊢
    rw [hnone] at hw
    simp only [List.any_nil, Bool.false_eq_true, if_false] at hw
    split at hw
    · cases hw
    · cases hw
      refine if_pos (List.any_eq_true.mpr ⟨_, List.mem_append_right _ (List.mem_singleton_self _), ?_⟩)
      rfl

/-- A call cannot tell whether the window was asked for before. -/
theorem Windowed.call (hw : Windowed P e h h') {op : Op} (hop : ∀ sync, op ≠ .reset sync) :
    (h.call P e op).2 = (h'.call P e op).2 ∧
      Windowed P e (h.call P e op).1 (h'.call P e op).1 := by
  cases hw with
  | same => exact ⟨rfl, .same⟩
  | window h' npu none ok again live =>
    have hsame : Windowed P e h h' := .window h' npu none ok again live
    have halloc : ∀ (need : ℕ) (managed physical : Bool) (drv : Driver),
        h.allocate P e need managed physical drv = h'.allocate P e need managed physical drv := by
      intro need managed physical drv
      unfold allocate
      rw [npu]
      simp only [allocateNpu, ok, again]
    cases op with
    | malloc r =>
      simp only [DeviceHeap.call]
      split
      · exact ⟨rfl, hsame⟩
      split
      · exact ⟨rfl, hsame⟩
      cases r.acquire with
      | some x => exact ⟨rfl, hsame⟩
      | none =>
        rw [halloc]
        exact ⟨rfl, .same⟩
    | mallocPhysical r =>
      simp only [DeviceHeap.call]
      split
      · exact ⟨rfl, hsame⟩
      split
      · exact ⟨rfl, hsame⟩
      cases r.acquire with
      | some x => exact ⟨rfl, hsame⟩
      | none =>
        rw [halloc]
        exact ⟨rfl, .same⟩
    | mallocManaged r =>
      simp only [DeviceHeap.call]
      split
      · exact ⟨rfl, hsame⟩
      cases r.acquire with
      | some x => exact ⟨rfl, hsame⟩
      | none =>
        simp only
        split
        · exact ⟨rfl, hsame⟩
        · rw [halloc]
          exact ⟨rfl, .same⟩
    | free address =>
      simp only [DeviceHeap.call, free]
      split
      · exact ⟨rfl, hsame⟩
      · have hfind : (OrdMap.empty : OrdMap ℕ Block).find? address = Option.none :=
          OrdMap.find?_eq_none_iff.mpr fun v => OrdMap.not_has_empty _ v
        simp only [none, live, hfind]
        exact ⟨trivial, hsame⟩
    | reset sync => exact absurd rfl (hop sync)

/-- Where the driver's memory is aligned, a new region always holds the block it was made for. -/
theorem Refused.windowed (hs : h.Sound P e ok) {need : ℕ} {drv : Driver}
    (hdrv : drv.Ok h.Taken) (halign : drv.Aligned (alignmentFor (P.device e)))
    (hr : Refused P e h need drv h') : Windowed P e h h' := by
  cases hr with
  | same => exact .same
  | window h' npu ok => exact hs.windowed npu ok
  | slab r buffer whole made fits none =>
    exfalso
    have hbest := Option.map_eq_none_iff.mp none
    have hhas : r.free.Has r.base r.size := by
      rw [whole]
      simp [Extents.single]
    have htop := bestFit_none hbest (List.mem_append_right _ (List.mem_singleton_self r)) hhas
      (by simp [halign _ _ _ made, fits])
    obtain ⟨-, hbase, hstop, -⟩ := hdrv _ _ _ made
    omega

theorem Windowed.taken (hw : Windowed P e h h') {x : ℕ} (hx : h.Taken x) : h'.Taken x := by
  cases hw with
  | same => exact hx
  | window h' npu none ok again live =>
    unfold DeviceHeap.window at ok
    dsimp only at ok
    split at ok
    · cases ok
      exact hx
    split at ok
    · cases ok
    · cases ok
      rcases hx with ⟨r, hr, hrx⟩ | ha
      · exact .inl ⟨r, List.mem_append_left _ hr, hrx⟩
      · exact .inr ha

end DeviceHeap

theorem Call.Rounds.meets {c : Call} (hc : c.Rounds P s) : c.Meets P (0 < ·) s where
  driver := fun r hr => (hc.driver r hr).1
  size := fun n hn => (hc.size n hn).1.trans_le (hc.size n hn).2.need.1
  reset := fun sync h => absurd h (hc.noReset sync)

theorem Along.meets {cs : List Call}
    (hcs : Runs.Along (Heap.step P) (fun s c => c.Rounds P s) s cs) :
    Runs.Along (Heap.step P) (fun s c => c.Meets P (0 < ·) s) s cs :=
  hcs.mono fun _ _ => Call.Rounds.meets

/-- Two heaps that differ in windows nobody has asked for give the same results from there on. -/
theorem results_windowed (hg : s.Good P (0 < ·)) (hg' : s'.Good P (0 < ·))
    (hw : ∀ e, DeviceHeap.Windowed P e (s.view e) (s'.view e)) {cs : List Call}
    (hcs : Runs.Along (Heap.step P) (fun s c => c.Rounds P s) s' cs) (e : ℕ) :
    s.results P e cs = s'.results P e cs ∧
      ((Runs.after (Heap.step P) s cs).view e).live =
        ((Runs.after (Heap.step P) s' cs).view e).live := by
  induction cs generalizing s s' with
  | nil => exact ⟨rfl, (hw e).live.symm⟩
  | cons c cs ih =>
    obtain ⟨hc', hcs⟩ := hcs
    have hc : c.Rounds P s := by
      refine ⟨fun r hr => ⟨fun n b base hmade => ?_, (hc'.driver r hr).2⟩, hc'.size, hc'.noReset⟩
      obtain ⟨h₁, h₂, h₃, h₄⟩ := (hc'.driver r hr).1 n b base hmade
      refine ⟨h₁, h₂, h₃, fun x hx hx' ht => h₄ x hx hx' ?_⟩
      exact hg'.linked.taken_view.mp ((hw _).taken (hg.linked.taken_view.mpr ht))
    have href := hg.call_refines hc.meets
    have href' := hg'.call_refines hc'.meets
    obtain ⟨hres, hnext⟩ := DeviceHeap.Windowed.call (hw c.device) (hc.noReset : ∀ sync, c.op ≠ .reset sync)
    have hw₁ : ∀ e, DeviceHeap.Windowed P e ((s.step P c).view e) ((s'.step P c).view e) := by
      intro e
      by_cases he : e = c.device
      · subst he
        rw [Heap.step, Heap.step, href.view, href'.view]
        exact hnext
      · rw [Heap.step, Heap.step, href.others e he, href'.others e he]
        exact hw e
    obtain ⟨hrest, hlive⟩ := ih (hg.step hc.meets) (hg'.step hc'.meets) hw₁ hcs
    refine ⟨?_, hlive⟩
    unfold Heap.results
    rw [hrest, href.result, href'.result, hres]

/-! ## A failed call leaves `g_live` as it was -/

theorem allocateNpu_live {align need : ℕ} {managed : Bool} {x : GrxError}
    (h : (allocateNpu P s e align need managed).2 = .error x) :
    (allocateNpu P s e align need managed).1.live = s.live := by
  have hwindow : ∀ s₁, ensureNpuWindow P s e = .ok s₁ → s₁.live = s.live := by
    intro s₁ hs₁
    unfold ensureNpuWindow at hs₁
    dsimp only at hs₁
    split at hs₁
    · cases hs₁
      rfl
    split at hs₁
    · cases hs₁
    · cases hs₁
      rfl
  unfold allocateNpu at h ⊢
  rcases hw : ensureNpuWindow P s e with r | s₁
  · rfl
  simp only [hw] at h ⊢
  rcases ht : takeBestFit s₁ e need align with _ | ⟨base, slab, s₂⟩
  · exact hwindow s₁ hw
  · rw [ht] at h
    cases h

theorem allocateDirect_live {need : ℕ} {managed physical : Bool} {drv : Driver} {x : GrxError}
    (h : (allocateDirect s e need managed physical drv).2 = .error x) :
    (allocateDirect s e need managed physical drv).1.live = s.live := by
  unfold allocateDirect at h ⊢
  rcases hc : drv.create need with r | ⟨buffer, base⟩
  · rfl
  · rw [hc] at h
    cases h

theorem allocateSlab_live {need : ℕ} {managed : Bool} {drv : Driver} {x : GrxError}
    (h : (allocateSlab P s e need managed drv).2 = .error x) :
    (allocateSlab P s e need managed drv).1.live = s.live := by
  unfold allocateSlab at h ⊢
  dsimp only at h ⊢
  rcases ht : takeBestFit s e need (alignmentFor (P.device e)) with _ | ⟨base, slab, s₁⟩
  · rw [ht] at h
    simp only at h ⊢
    unfold addSlab at h ⊢
    rcases hc : drv.create (if slabSize P < need then alignUp need (alignmentFor (P.device e))
      else slabSize P) with r | ⟨buffer, base⟩
    · rfl
    · rw [hc] at h
      simp only at h ⊢
      split at h
      · cases h
      · rfl
  · rw [ht] at h
    cases h

theorem call_error_live {c : Call} (hreset : ∀ sync, c.op ≠ .reset sync) {x : GrxError}
    (h : (s.call P c).2 = .error x) : (s.call P c).1.live = s.live := by
  have hdevice : ∀ (bytes : ℕ) (managed : Bool) (acquire : Option GrxError) (drv : Driver),
      (allocateDevice P s c.device bytes managed acquire drv).2 = .error x →
        (allocateDevice P s c.device bytes managed acquire drv).1.live = s.live := by
    intro bytes managed acquire drv h
    unfold allocateDevice at h ⊢
    cases acquire with
    | some r => rfl
    | none =>
      simp only at h ⊢
      cases htype : (P.device c.device).type with
      | pta => rfl
      | npu =>
        simp only [htype] at h
        exact allocateNpu_live h
      | gpu =>
        simp only [htype] at h ⊢
        split
        · rename_i hbig
          rw [if_pos hbig] at h
          exact allocateDirect_live h
        · rename_i hsmall
          rw [if_neg hsmall] at h
          exact allocateSlab_live h
  obtain ⟨e, op⟩ := c
  cases op with
  | malloc r =>
    simp only [Heap.call, grxMalloc] at h ⊢
    split
    · rfl
    split
    · rfl
    rename_i hout hsize
    rw [if_neg hout, if_neg hsize] at h
    exact hdevice _ _ _ _ h
  | mallocPhysical r =>
    simp only [Heap.call, grxMallocPhysical] at h ⊢
    split
    · rfl
    split
    · rfl
    rename_i hout hsize
    rw [if_neg hout, if_neg hsize] at h
    unfold allocateDevicePhysical at h ⊢
    cases hacq : r.acquire with
    | some r => rfl
    | none =>
      simp only [hacq] at h ⊢
      cases htype : (P.device e).type with
      | pta => rfl
      | npu =>
        simp only [htype] at h
        exact allocateNpu_live h
      | gpu =>
        simp only [htype] at h
        exact allocateDirect_live h
  | mallocManaged r =>
    simp only [Heap.call, grxMallocManaged] at h ⊢
    split
    · rfl
    rename_i hout
    rw [if_neg hout] at h
    cases hacq : r.acquire with
    | some r => rfl
    | none =>
      simp only [hacq] at h ⊢
      split
      · rfl
      · rename_i hmanaged
        rw [if_neg hmanaged] at h
        exact hdevice _ _ _ _ h
  | free address =>
    simp only [Heap.call, grxFree] at h ⊢
    split
    · rfl
    rename_i hnull
    rw [if_neg hnull] at h
    rcases hf : s.live.find? (toLex (e, address)) with _ | a
    · rfl
    · rw [hf] at h
      simp only at h
      split at h
      · cases h
      · split at h <;> cases h
  | reset sync => exact absurd rfl (hreset sync)

/-! ## The law -/

/-- The size law, for every call after every run in which each size rounds without wrapping to
something: a pointer that is returned serves the request, and an error leaves what is live and what
later calls return as they were. -/
theorem allocation_size_law (P : Platform) (hline : ∀ e, (P.device e).LineOk) (cs : List Call)
    (c : Call) (r : Request) (hr : c.op.request = some r)
    (hcs : Runs.Along (Heap.step P) (fun s c => c.Rounds P s) {} (cs ++ [c])) :
    (∀ p, ((Runs.after (Heap.step P) {} cs).call P c).2 = .ok p →
        (r.size = 0 ∧ p = 0 ∧
            ∀ e, (Runs.after (Heap.step P) {} (cs ++ [c])).view e =
              (Runs.after (Heap.step P) {} cs).view e) ∨
          ∃ a lo len,
            Served P (Runs.after (Heap.step P) {} (cs ++ [c])) c.device r.size p a lo len) ∧
      ∀ x, ((Runs.after (Heap.step P) {} cs).call P c).2 = .error x →
        (Runs.after (Heap.step P) {} (cs ++ [c])).live = (Runs.after (Heap.step P) {} cs).live ∧
          ∀ later, Runs.Along (Heap.step P) (fun s c => c.Rounds P s)
              (Runs.after (Heap.step P) {} (cs ++ [c])) later →
            ∀ e, Heap.results P e (Runs.after (Heap.step P) {} cs) later =
                Heap.results P e (Runs.after (Heap.step P) {} (cs ++ [c])) later ∧
              ((Runs.after (Heap.step P) {} (cs ++ later)).view e).live =
                ((Runs.after (Heap.step P) {} (cs ++ [c] ++ later)).view e).live := by
  obtain ⟨hcs, hc, -⟩ := (Runs.along_append _ _ _).mp hcs
  have hg : (Runs.after (Heap.step P) {} cs).Good P (0 < ·) :=
    Heap.Good.run (Along.meets hcs) Heap.Good.empty
  simp only [Runs.after_append]
  generalize Runs.after (Heap.step P) {} cs = s at *
  have hafter : Runs.after (Heap.step P) s [c] = (s.call P c).1 := rfl
  rw [hafter]
  have hm := hc.meets
  have href := hg.call_refines hm
  have hg' : (s.call P c).1.Good P (0 < ·) := hg.step hm
  have hdrv := hm.view hg.linked
  have halloc := (hg.sound c.device).call_alloc hdrv hr
  constructor
  · intro p hp
    rw [href.result] at hp
    rcases halloc with ⟨hsame, hsize⟩ | ⟨x, hsame⟩ |
      ⟨managed, physical, hask, ⟨x, hx, -⟩ | ⟨b, hb, hall⟩⟩
    · rw [hsame] at hp
      cases hp
      refine .inl ⟨hsize, rfl, fun e => ?_⟩
      by_cases he : e = c.device
      · rw [he, href.view, hsame]
      · exact href.others e he
    · rw [hsame] at hp
      cases hp
    · rw [hx] at hp
      cases hp
    · rw [hb] at hp
      cases hp
      right
      obtain ⟨hpos, hun⟩ := hc.size _ hask
      have hlive : ((s.call P c).1.view c.device).live.Has b.base b := by
        rw [href.view, hall.live]
        simp
      obtain ⟨a, ha, rfl⟩ := view_live_has.mp hlive
      refine ⟨a, hg'.served ha hall.fits (fun hd => ?_) hun.need.1 hun.need.2
        (hun.need_mod (hline _))⟩
      obtain ⟨buffer, hmade⟩ := hall.made hd
      exact (hc.driver r hr).2 _ _ _ hmade
  · intro x hx
    refine ⟨call_error_live hc.noReset hx, fun later hlater e => ?_⟩
    refine results_windowed hg hg' (fun e => ?_) hlater e
    by_cases he : e = c.device
    · subst he
      rw [href.result] at hx
      rw [href.view]
      rcases halloc with ⟨hsame, -⟩ | ⟨y, hsame⟩ |
        ⟨managed, physical, hask, ⟨y, hy, -, href'⟩ | ⟨b, hb, -⟩⟩
      · rw [hsame]
        exact .same
      · rw [hsame]
        exact .same
      · exact href'.windowed (hg.sound _) (hdrv.driver r hr) (hc.driver r hr).2
      · rw [hb] at hx
        cases hx
    · rw [href.others e he]
      exact .same

/-! ## A run that meets the condition, and a size that wraps -/

theorem plain_lineOk (e : ℕ) : (plain.device e).LineOk := by
  intro h
  exact absurd (show 0 < (0 : Int32).toInt from h) (by decide)

theorem bump_aligned {buffer : Buffer} {next align : ℕ} (h : next % align = 0) :
    (Driver.bump buffer next).Aligned align := by
  intro n b base hmade
  unfold Driver.bump at hmade
  split at hmade
  · cases hmade
    exact h
  · cases hmade

theorem plain_unwrapped {n : ℕ} (hpos : 0 < n) (hlt : n < 2 ^ 63) (e : ℕ) :
    0 < n + sanitizeRedzoneBytes plain ∧ Unwrapped plain e n := by
  have hred : sanitizeRedzoneBytes plain = 0 := rfl
  have halign : alignmentFor (plain.device e) = 256 := rfl
  unfold Unwrapped
  omega

theorem mallocAt_rounds {size next : ℕ} (h : s.EndsBy e next) (hn : 0 < next)
    (halign : next % 256 = 0) (hsize : 0 < size) (hun : size < 2 ^ 63) :
    (mallocAt e size next).Rounds plain s where
  driver := by
    intro r hr
    refine ⟨mallocAt_driver h hn r hr, ?_⟩
    cases hr
    exact bump_aligned halign
  size := by
    intro n hn
    rw [mallocAt_asks hn]
    exact plain_unwrapped hsize hun _
  noReset := by
    intro sync h
    cases h

theorem allocation_size_law_second : ∃ a lo len,
    Served plain (Runs.after (Heap.step plain) {} [mallocAt 0 100 4096, mallocAt 0 256 (2 ^ 27)])
      0 256 4352 a lo len := by
  have hlaw := allocation_size_law plain plain_lineOk [mallocAt 0 100 4096]
    (mallocAt 0 256 (2 ^ 27)) _ rfl
    ⟨mallocAt_rounds (by decide) (by decide) (by decide) (by decide) (by decide),
      mallocAt_rounds (by decide +kernel) (by decide) (by decide) (by decide) (by decide), trivial⟩
  rcases hlaw.1 4352 (by decide +kernel) with ⟨hzero, -⟩ | hserved
  · exact absurd hzero (by decide)
  · exact hserved

/-- A request of all but no bytes succeeds, with an empty range. -/
theorem allocation_size_law_wrapped :
    (∀ r, (mallocAt 0 (2 ^ 64 - 1) 4096).op.request = some r →
        r.driver.Ok (({} : Heap).Taken 0) ∧ r.driver.Aligned (alignmentFor (plain.device 0))) ∧
      (({} : Heap).call plain (mallocAt 0 (2 ^ 64 - 1) 4096)).2 = .ok 4096 ∧
      ¬∃ a lo len, Served plain (({} : Heap).step plain (mallocAt 0 (2 ^ 64 - 1) 4096)) 0
        (2 ^ 64 - 1) 4096 a lo len := by
  refine ⟨fun r hr => ⟨mallocAt_driver (by decide) (by decide) r hr, ?_⟩, by decide +kernel, ?_⟩
  · cases hr
    exact bump_aligned (by decide)
  · rintro ⟨a, lo, len, h⟩
    have hempty : ∀ x ∈ (({} : Heap).step plain (mallocAt 0 (2 ^ 64 - 1) 4096)).live.entries,
        x.2.size = 0 := by
      decide +kernel
    have hsize : a.size = 0 := hempty _ h.live
    have hholds := h.holds
    omega

end Grxcp.Runtime
