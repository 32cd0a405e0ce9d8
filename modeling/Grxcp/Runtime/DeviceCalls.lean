import Grxcp.Runtime.DeviceHeap

/-!
# Calls on the heap of one device

Every call is a sequence of edits, provided the driver gives out memory that the device does not
have already. An allocating call either fails with the live blocks as they were, or makes one block
of the rounded size and returns its base (`allocate_cases`).
-/

namespace Grxcp.Runtime

/-- The driver gives out buffers of the sizes asked for, at addresses that fit, in memory that is not
taken. -/
def Driver.Ok (drv : Driver) (taken : ℕ → Prop) : Prop :=
  ∀ n buffer base, drv n = .made buffer base →
    0 < n ∧ 0 < base ∧ base + n < 2 ^ 64 ∧ ∀ x, base ≤ x → x < base + n → ¬taken x

/-- What an allocating call is given. -/
def Op.request : Op → Option Request
  | .malloc r => some r
  | .mallocPhysical r => some r
  | .mallocManaged r => some r
  | .free _ => none
  | .reset _ => none

/-- The request gets past the checks of the arguments and of the device. -/
def Request.reaches (r : Request) (d : Device) : Bool :=
  r.out && r.acquire.isNone && d.type ≠ .pta

/-- The size that a call on a device asks the allocator for, if it gets so far. -/
def Op.asks (d : Device) : Op → Option ℕ
  | .malloc r => if r.reaches d && r.size ≠ 0 then some r.size else none
  | .mallocPhysical r => if r.reaches d && r.size ≠ 0 then some r.size else none
  | .mallocManaged r => if r.reaches d && d.managedMemory then some r.size else none
  | .free _ => none
  | .reset _ => none

namespace DeviceHeap

variable {P : Platform} {e : ℕ} {ok : ℕ → Prop} {h h' : DeviceHeap}

/-! ## Best fit -/

theorem bestFit_append (fits : ℕ → ℕ → Bool) (rs : List Region) (r : Region) :
    bestFit fits (rs ++ [r]) =
      OrdMap.better (bestFit fits rs) (r.free.firstLeast fits (2 ^ 64 - 1)) (2 ^ 64 - 1) := by
  unfold bestFit
  rw [List.foldl_append, List.foldl_cons, List.foldl_nil]

theorem bestFit_some {fits : ℕ → ℕ → Bool} {rs : List Region} {b n : ℕ}
    (hb : bestFit fits rs = some (b, n)) :
    ∃ r ∈ rs, r.free.Has b n ∧ fits b n = true := by
  induction rs using List.reverseRecOn with
  | nil => cases hb
  | append_singleton rs r ih =>
    rw [bestFit_append] at hb
    rcases OrdMap.better_eq_some hb with hb | hb
    · obtain ⟨q, hq, hfit⟩ := ih hb
      exact ⟨q, List.mem_append_left _ hq, hfit⟩
    · obtain ⟨hhas, hfit, -⟩ := OrdMap.firstLeast_eq_some_iff.mp hb
      exact ⟨r, by simp, hhas, hfit⟩

/-- Where nothing is found, no extent below the top size fits. -/
theorem bestFit_none {fits : ℕ → ℕ → Bool} {rs : List Region} (hn : bestFit fits rs = none)
    {r : Region} (hr : r ∈ rs) {b n : ℕ} (hb : r.free.Has b n) (hfit : fits b n = true) :
    2 ^ 64 - 1 ≤ n := by
  induction rs using List.reverseRecOn with
  | nil => cases hr
  | append_singleton rs q ih =>
    rw [bestFit_append] at hn
    obtain ⟨hrs, hq⟩ := OrdMap.better_firstLeast_eq_none hn
    rcases List.mem_append.mp hr with hr | hr
    · exact ih hrs hr
    · obtain rfl := List.mem_singleton.mp hr
      exact OrdMap.firstLeast_eq_none_iff.mp hq b n hb hfit

/-- What `take` finds. -/
theorem take_some {bytes align base : ℕ} (ht : h.take bytes align = some (base, h')) :
    ∃ r ∈ h.regions, ∃ n, r.free.Has base n ∧ base % align = 0 ∧ bytes ≤ n ∧
      h' = h.edit base fun m => m.carve base n bytes := by
  unfold take at ht
  obtain ⟨⟨b, n⟩, hb, he⟩ := Option.map_eq_some_iff.mp ht
  obtain ⟨rfl, rfl⟩ := Prod.mk.inj he
  obtain ⟨r, hr, hhas, hfit⟩ := bestFit_some hb
  rw [Bool.and_eq_true, decide_eq_true_eq, decide_eq_true_eq] at hfit
  exact ⟨r, hr, n, hhas, hfit.1, hfit.2, rfl⟩

theorem cut_eq (hl : h.Laid P e) {r : Region} (hr : r ∈ h.regions) {base : ℕ}
    (hb : r.Contains base) (size : ℕ) (managed : Bool) :
    h.cut e base size managed =
      { buffer := r.buffer, base, size, offset := base - r.base, device := e, managed } := by
  obtain ⟨q, hq⟩ : ∃ q, h.regions.find? (fun q => decide (q.Contains base)) = some q := by
    rw [← Option.isSome_iff_exists, List.find?_isSome]
    exact ⟨r, hr, by simpa using hb⟩
  have hqb : q.Contains base := by simpa using List.find?_some hq
  obtain rfl := hl.unique hr (List.mem_of_find?_eq_some hq) hb hqb
  simp only [cut, hq]

/-! ## Allocating -/

/-- The block that an allocation makes. -/
structure Fits (P : Platform) (e need : ℕ) (managed physical : Bool) (a : Block) : Prop where
  size : a.size = need
  owner : a.device = e
  managed : a.managed = managed
  aligned : a.direct = false → a.base % alignmentFor (P.device e) = 0
  physical : a.direct = true → a.physical = physical

/-- A block is cut from the front of the best extent. -/
theorem Sound.take (hs : h.Sound P e ok) {need base : ℕ} (managed physical : Bool) (hok : ok need)
    (ht : h.take need (alignmentFor (P.device e)) = some (base, h')) :
    Edit P e ok h (h'.place (h'.cut e base need managed)) ∧ h'.live = h.live ∧
      (h'.cut e base need managed).base = base ∧
      Fits P e need managed physical (h'.cut e base need managed) := by
  obtain ⟨r, hr, n, hhas, halign, hle, rfl⟩ := take_some ht
  have hb := (hs.free_in r hr base n hhas).1
  have hstop := (hs.free_in r hr base n hhas).2
  have hin : base + need ≤ r.base + r.size := by omega
  have hedit : Edit P e ok h ((h.edit base fun m => m.carve base n need).place
      { buffer := r.buffer, base, size := need, offset := base - r.base, device := e, managed }) :=
    .cut r n
      { buffer := r.buffer, base, size := need, offset := base - r.base, device := e, managed }
      hr hhas hle hok ⟨rfl, rfl, hb, hin⟩ rfl rfl
  have hl : (h.edit base fun m => m.carve base n need).Laid P e :=
    (hedit.sound hs).toLaid.congr rfl
  rw [cut_eq hl (mem_edit.mpr ⟨r, hr, rfl⟩) (by simpa using hb), Region.edit_buffer,
    Region.edit_base]
  exact ⟨hedit, rfl, rfl, ⟨rfl, rfl, rfl, fun _ => halign, fun hd => by cases hd⟩⟩

theorem cut_direct (base size : ℕ) (managed : Bool) : (h.cut e base size managed).direct = false := by
  unfold DeviceHeap.cut
  split <;> rfl

theorem Driver.create_ok {drv : Driver} {n base : ℕ} {buffer : Buffer}
    (hc : drv.create n = .ok (buffer, base)) : drv n = .made buffer base := by
  unfold Driver.create at hc
  split at hc
  · cases hc
  · cases hc
  · cases hc
    assumption

/-- A buffer of the driver's becomes a region. -/
theorem grow_edit {drv : Driver} (hdrv : drv.Ok h.Taken) {n base : ℕ} {buffer : Buffer}
    (hgpu : (P.device e).type = .gpu) (hc : drv.create n = .ok (buffer, base)) :
    Edit P e ok h (h.grow (.whole (some buffer) base n false)) := by
  obtain ⟨hn, hbase, hstop, hfresh⟩ := hdrv n buffer base (Driver.create_ok hc)
  refine .grow _ ⟨hbase, hn, hstop, fun hnpu => ?_⟩ rfl fun x hx => hfresh x hx.1 hx.2
  rw [hgpu] at hnpu
  cases hnpu

/-- The window of an NPU becomes a region, unless it is one. -/
theorem Sound.window (hs : h.Sound P e ok) (hnpu : (P.device e).type = .npu)
    (hw : h.window P e = .ok h') :
    h' = h ∨ h.regions = [] ∧ Edit P e ok h h' ∧ h'.live = h.live := by
  unfold DeviceHeap.window at hw
  dsimp only at hw
  split at hw
  · cases hw
    exact .inl rfl
  rename_i hnone
  split at hw
  · cases hw
  rename_i htotal
  cases hw
  have hregions : h.regions = [] := by
    refine List.eq_nil_iff_forall_not_mem.mpr fun r hr => hnone ?_
    exact List.any_eq_true.mpr ⟨r, hr, ((hs.proper r hr).npu hnpu).1⟩
  have hlt := (P.device e).totalGlobalMem.toNat_lt
  have hmin : kMinAlign = 256 := rfl
  refine .inr ⟨hregions, .grow _ ⟨?_, ?_, ?_, fun _ => ⟨rfl, rfl⟩⟩ rfl ?_, rfl⟩
  · simp only [Region.whole]
    omega
  · simp only [Region.whole]
    omega
  · simp only [Region.whole]
    omega
  · rintro x - (⟨r, hr, -⟩ | ⟨a, ha, hd, -⟩)
    · rw [hregions] at hr
      cases hr
    · exact (hs.owned_out a ha hd).2.1 hnpu

/-- What an allocation that makes a block does. -/
structure Allocated (P : Platform) (e : ℕ) (ok : ℕ → Prop) (h : DeviceHeap) (need : ℕ)
    (managed physical : Bool) (drv : Driver) (a : Block) (h' : DeviceHeap) : Prop where
  edits : Relation.ReflTransGen (Edit P e ok) h h'
  live : h'.live = h.live.insert a.base a
  fits : Fits P e need managed physical a
  made : a.direct = true → ∃ buffer, drv need = .made buffer a.base

/-- What an allocation that fails can leave behind: the window of an NPU, or a region that the block
does not fit in after all. -/
inductive Refused (P : Platform) (e : ℕ) (h : DeviceHeap) (need : ℕ) (drv : Driver) :
    DeviceHeap → Prop
  | same : Refused P e h need drv h
  | window (h₁ : DeviceHeap) (npu : (P.device e).type = .npu) (ok : h.window P e = .ok h₁) :
      Refused P e h need drv h₁
  | slab (r : Region) (buffer : Buffer) (whole : r.free = .single r.base r.size)
      (made : drv r.size = .made buffer r.base) (fits : need ≤ r.size)
      (none : (h.grow r).take need (alignmentFor (P.device e)) = none) :
      Refused P e h need drv (h.grow r)

/-- What an allocation does: it fails, or it makes a block and returns its base. -/
def AllocateSpec (P : Platform) (e : ℕ) (ok : ℕ → Prop) (h : DeviceHeap) (need : ℕ)
    (managed physical : Bool) (drv : Driver) (res : DeviceHeap × Except GrxError ℕ) : Prop :=
  (∃ x, res.2 = .error x ∧ Relation.ReflTransGen (Edit P e ok) h res.1 ∧
      Refused P e h need drv res.1) ∨
    ∃ a, res.2 = .ok a.base ∧ Allocated P e ok h need managed physical drv a res.1

theorem Sound.allocateNpu (hs : h.Sound P e ok) {need : ℕ} (managed physical : Bool)
    (hok : ok need) (hnpu : (P.device e).type = .npu) (drv : Driver) :
    AllocateSpec P e ok h need managed physical drv (h.allocateNpu P e need managed) := by
  unfold DeviceHeap.allocateNpu
  rcases hw : h.window P e with x | h₁
  · exact .inl ⟨x, rfl, .refl, .same⟩
  · have hmoved : Relation.ReflTransGen (Edit P e ok) h h₁ ∧ h₁.live = h.live ∧
        h₁.Sound P e ok := by
      rcases hs.window hnpu hw with rfl | ⟨-, hedit, hlive⟩
      · exact ⟨.refl, rfl, hs⟩
      · exact ⟨.single hedit, hlive, hedit.sound hs⟩
    obtain ⟨hreach, hlive, hs₁⟩ := hmoved
    rcases ht : h₁.take need (alignmentFor (P.device e)) with _ | ⟨base, h₂⟩
    · simp only [ht]
      exact .inl ⟨_, rfl, hreach, .window h₁ hnpu hw⟩
    · obtain ⟨hedit, hlive₂, hbase, hfits⟩ := hs₁.take managed physical hok ht
      simp only [ht]
      refine .inr ⟨h₂.cut e base need managed, by rw [hbase], hreach.tail hedit, ?_, hfits, ?_⟩
      · rw [DeviceHeap.place, hlive₂, hlive]
      · simp [cut_direct]

theorem allocateDirect_spec {need : ℕ} (managed physical : Bool) (hok : ok need)
    (hgpu : (P.device e).type = .gpu) {drv : Driver} (hdrv : drv.Ok h.Taken) :
    AllocateSpec P e ok h need managed physical drv
      (h.allocateDirect e need managed physical drv) := by
  unfold DeviceHeap.allocateDirect
  rcases hc : drv.create need with x | ⟨buffer, base⟩
  · exact .inl ⟨x, rfl, .refl, .same⟩
  · obtain ⟨hn, hbase, hstop, hfresh⟩ := hdrv need buffer base (Driver.create_ok hc)
    refine .inr ⟨{ buffer := some buffer, base, size := need, device := e, direct := true, managed,
                   physical }, rfl, .single ?_, rfl, ⟨rfl, rfl, rfl, fun hd => (by cases hd),
                   fun _ => rfl⟩, fun _ => ⟨buffer, Driver.create_ok hc⟩⟩
    exact .direct _ hok ⟨rfl, hbase, hn, hstop⟩ rfl rfl (by rw [hgpu]; decide)
      fun x hx => hfresh x hx.1 hx.2

theorem Sound.allocateSlab (hs : h.Sound P e ok) {need : ℕ} (managed physical : Bool)
    (hok : ok need) (hgpu : (P.device e).type = .gpu)
    (hsmall : need < slabSize P / kDirectDivisor) {drv : Driver} (hdrv : drv.Ok h.Taken) :
    AllocateSpec P e ok h need managed physical drv (h.allocateSlab P e need managed drv) := by
  have hle : need ≤ slabSize P := hsmall.le.trans (Nat.div_le_self _ _)
  unfold DeviceHeap.allocateSlab
  dsimp only
  rcases ht : h.take need (alignmentFor (P.device e)) with _ | ⟨base, h₂⟩
  · simp only [not_lt.mpr hle, if_false]
    rcases hc : drv.create (slabSize P) with x | ⟨buffer, base⟩
    · exact .inl ⟨x, rfl, .refl, .same⟩
    · have hgrow : Edit P e ok h (h.grow (.whole (some buffer) base (slabSize P) false)) :=
        grow_edit hdrv hgpu hc
      rcases ht' : (h.grow (.whole (some buffer) base (slabSize P) false)).take need
          (alignmentFor (P.device e)) with _ | ⟨base', h₂⟩
      · simp only [ht']
        exact .inl ⟨_, rfl, .single hgrow, .slab _ buffer rfl (Driver.create_ok hc) hle ht'⟩
      · obtain ⟨hedit, hlive, hbase, hfits⟩ :=
          (hgrow.sound hs).take managed physical hok ht'
        simp only [ht']
        refine .inr ⟨h₂.cut e base' need managed, by rw [hbase], .tail (.single hgrow) hedit, ?_,
          hfits, ?_⟩
        · rw [DeviceHeap.place, hlive]
          rfl
        · simp [cut_direct]
  · obtain ⟨hedit, hlive, hbase, hfits⟩ := hs.take managed physical hok ht
    simp only
    refine .inr ⟨h₂.cut e base need managed, by rw [hbase], .single hedit, ?_, hfits, ?_⟩
    · rw [DeviceHeap.place, hlive]
    · simp [cut_direct]

/-- An allocation fails or makes a block. -/
theorem Sound.allocate (hs : h.Sound P e ok) {need : ℕ} (managed physical : Bool)
    (hok : ok need) {drv : Driver} (hdrv : drv.Ok h.Taken) :
    AllocateSpec P e ok h need managed physical drv
      (h.allocate P e need managed physical drv) := by
  unfold DeviceHeap.allocate
  cases htype : (P.device e).type with
  | pta => exact .inl ⟨_, rfl, .refl, .same⟩
  | npu => exact hs.allocateNpu managed physical hok htype drv
  | gpu =>
    simp only
    split
    · exact allocateDirect_spec managed physical hok htype hdrv
    · rename_i hsmall
      exact hs.allocateSlab managed physical hok htype (not_le.mp fun hle => hsmall (.inr hle)) hdrv

/-! ## Every call -/

/-- What is asked of a call: that the driver is sound, that the size asked for is one that `ok`
allows, and that no window is lost in a reset. -/
structure Meets (P : Platform) (e : ℕ) (ok : ℕ → Prop) (h : DeviceHeap) (op : Op) : Prop where
  driver : ∀ r, op.request = some r → r.driver.Ok h.Taken
  size : ∀ n, op.asks (P.device e) = some n → ok (need P e n)
  reset : ∀ sync, op = .reset sync → ∀ r ∈ h.regions, r.npu = false

theorem allocate_pta (hpta : (P.device e).type = .pta) (need : ℕ) (managed physical : Bool)
    (drv : Driver) : h.allocate P e need managed physical drv = (h, .error .notSupported) := by
  unfold DeviceHeap.allocate
  rw [hpta]

/-- What an allocating call does: nothing, for no bytes or with an error, or an allocation. -/
theorem Sound.call_alloc (hs : h.Sound P e ok) {op : Op} (hm : Meets P e ok h op) {r : Request}
    (hr : op.request = some r) :
    h.call P e op = (h, .ok 0) ∧ r.size = 0 ∨ (∃ x, h.call P e op = (h, .error x)) ∨
      ∃ managed physical, op.asks (P.device e) = some r.size ∧
        AllocateSpec P e ok h (need P e r.size) managed physical r.driver (h.call P e op) := by
  have hdrv := hm.driver r hr
  by_cases hpta : (P.device e).type = .pta
  · -- nothing is asked for on a chiplet
    cases op with
    | malloc r' =>
      obtain rfl := Option.some.inj hr
      simp only [DeviceHeap.call, allocate_pta hpta]
      split
      · exact .inr (.inl ⟨_, rfl⟩)
      split
      · rename_i hsize
        exact .inl ⟨rfl, hsize⟩
      · cases r'.acquire <;> exact .inr (.inl ⟨_, rfl⟩)
    | mallocPhysical r' =>
      obtain rfl := Option.some.inj hr
      simp only [DeviceHeap.call, allocate_pta hpta]
      split
      · exact .inr (.inl ⟨_, rfl⟩)
      split
      · rename_i hsize
        exact .inl ⟨rfl, hsize⟩
      · cases r'.acquire <;> exact .inr (.inl ⟨_, rfl⟩)
    | mallocManaged r' =>
      obtain rfl := Option.some.inj hr
      simp only [DeviceHeap.call, allocate_pta hpta]
      split
      · exact .inr (.inl ⟨_, rfl⟩)
      cases r'.acquire with
      | some x => exact .inr (.inl ⟨_, rfl⟩)
      | none =>
        simp only
        split <;> exact .inr (.inl ⟨_, rfl⟩)
    | free address => cases hr
    | reset sync => cases hr
  cases op with
  | malloc r' =>
    obtain rfl := Option.some.inj hr
    simp only [DeviceHeap.call]
    split
    · exact .inr (.inl ⟨_, rfl⟩)
    split
    · rename_i hsize
      exact .inl ⟨rfl, hsize⟩
    rename_i hout hsize
    cases hacq : r'.acquire with
    | some x => exact .inr (.inl ⟨_, rfl⟩)
    | none =>
      have hask : (Op.malloc r').asks (P.device e) = some r'.size := by
        simp [Op.asks, Request.reaches, hsize, hacq, hpta, hout]
      exact .inr (.inr ⟨false, false, hask, hs.allocate false false (hm.size _ hask) hdrv⟩)
  | mallocPhysical r' =>
    obtain rfl := Option.some.inj hr
    simp only [DeviceHeap.call]
    split
    · exact .inr (.inl ⟨_, rfl⟩)
    split
    · rename_i hsize
      exact .inl ⟨rfl, hsize⟩
    rename_i hout hsize
    cases hacq : r'.acquire with
    | some x => exact .inr (.inl ⟨_, rfl⟩)
    | none =>
      have hask : (Op.mallocPhysical r').asks (P.device e) = some r'.size := by
        simp [Op.asks, Request.reaches, hsize, hacq, hpta, hout]
      exact .inr (.inr ⟨false, true, hask, hs.allocate false true (hm.size _ hask) hdrv⟩)
  | mallocManaged r' =>
    obtain rfl := Option.some.inj hr
    simp only [DeviceHeap.call]
    split
    · exact .inr (.inl ⟨_, rfl⟩)
    rename_i hout
    cases hacq : r'.acquire with
    | some x => exact .inr (.inl ⟨_, rfl⟩)
    | none =>
      simp only
      split
      · exact .inr (.inl ⟨_, rfl⟩)
      · rename_i hmanaged
        have hask : (Op.mallocManaged r').asks (P.device e) = some r'.size := by
          simp [Op.asks, Request.reaches, hacq, hpta, hout, hmanaged]
        exact .inr (.inr ⟨true, false, hask, hs.allocate true false (hm.size _ hask) hdrv⟩)
  | free address => cases hr
  | reset sync => cases hr

/-- What a `free` does. -/
theorem Sound.free (hs : h.Sound P e ok) (address : ℕ) :
    Relation.ReflTransGen (Edit P e ok) h (h.free P address).1 := by
  unfold DeviceHeap.free
  split
  · exact .refl
  rcases hf : h.live.find? address with _ | a
  · exact .refl
  have ha := OrdMap.find?_eq_some_iff.mp hf
  obtain ⟨rfl, -⟩ := hs.live_key _ a ha
  simp only
  split
  · rename_i hsan
    exact .single (.hold a ha hsan)
  · rename_i hsan
    have hsan : P.sanitize = false := by simpa using hsan
    split
    · rename_i hd
      exact .single (.release a ha hd hsan)
    · rename_i hd
      exact .single (.giveBack a ha (by simpa using hd) hsan)

/-- Every call is a sequence of edits. -/
theorem Sound.call_edits (hs : h.Sound P e ok) {op : Op} (hm : Meets P e ok h op) :
    Relation.ReflTransGen (Edit P e ok) h (h.call P e op).1 := by
  cases hr : op.request with
  | some r =>
    rcases hs.call_alloc hm hr with ⟨hc, -⟩ | ⟨x, hc⟩ | ⟨_, _, -, ⟨_, -, hreach, -⟩ | ⟨_, -, hall⟩⟩
    · rw [hc]
    · rw [hc]
    · exact hreach
    · exact hall.edits
  | none =>
    cases op with
    | free address => exact hs.free address
    | reset sync => exact .single (.clear (hm.reset sync rfl))
    | _ => cases hr

/-- Every call keeps the ownership invariant. -/
theorem Sound.call (hs : h.Sound P e ok) {op : Op} (hm : Meets P e ok h op) :
    (h.call P e op).1.Sound P e ok :=
  Runs.reflTransGen_invariant (I := fun h => h.Sound P e ok)
    (fun _ _ hs hedit => hedit.sound hs) (hs.call_edits hm) hs

end DeviceHeap

end Grxcp.Runtime
