import Grxcp.Runtime.Launch
import Grxcp.Runtime.StreamCalls

/-!
# The bounds of a launch

What a launch is to satisfy is said in unbounded arithmetic (`Fits`). The code counts a block's threads
modulo `2 ^ 32` and compares the count as a signed number, adds the shared sizes modulo `2 ^ 64`, and
hands the driver the sum modulo `2 ^ 32`; so its checks (`validate_eq_none_iff`) are the bounds of every
launch whose block has below `2 ^ 31` threads and whose shared memory is below 4 GiB.
-/

namespace Grxcp.Runtime

/-! ## Exact counts -/

/-- The number of threads of a block, or of blocks of a grid. -/
def Dim3.count (d : Dim3) : ℕ :=
  (orOne d.x).toNat * (orOne d.y).toNat * (orOne d.z).toNat

/-- The shared bytes of a block: what the launch asks for, and what the kernel has. -/
def sharedBytes (k : KernelBinding) (shared : UInt64) : ℕ :=
  shared.toNat + k.staticSmem.toNat

theorem toNat_volume (d : Dim3) : (volume d).toNat = d.count % 2 ^ 32 := by
  unfold volume Dim3.count
  rw [UInt32.toNat_mul, UInt32.toNat_mul, Nat.mod_mul_mod]

/-- The count as the code compares it with the device's. -/
theorem toInt_volume (d : Dim3) : (volume d).toInt32.toInt = Int.bmod d.count (2 ^ 32) := by
  have hbits : (volume d).toInt32.toInt = Int.bmod (volume d).toNat (2 ^ 32) :=
    BitVec.toInt_eq_toNat_bmod _
  rw [hbits, toNat_volume, Int.natCast_emod]
  exact Int.emod_bmod _ _

theorem toNat_shared (k : KernelBinding) (shared : UInt64) :
    (shared + k.staticSmem.toUInt64).toNat = sharedBytes k shared % 2 ^ 64 := by
  unfold sharedBytes
  rw [UInt64.toNat_add, UInt32.toNat_toUInt64]

theorem toNat_lmemSize (k : KernelBinding) (grid block cluster : Dim3) (shared : UInt64) (args : Blob) :
    (launchInfo k grid block cluster shared args).lmemSize.toNat = sharedBytes k shared % 2 ^ 32 := by
  show ((shared + k.staticSmem.toUInt64).toUInt32).toNat = _
  rw [UInt64.toNat_toUInt32, toNat_shared]
  exact Nat.mod_mod_of_dvd _ (by decide)

theorem toNat_orOne (v : UInt32) : (orOne v).toNat = if v.toNat = 0 then 1 else v.toNat := by
  unfold orOne
  by_cases h : v = 0
  · rw [if_pos h, if_pos (by rw [h]; rfl)]
    rfl
  · have hne : v.toNat ≠ 0 := fun hn => h (UInt32.toNat_inj.mp hn)
    rw [if_neg h, if_neg hne]

theorem one_le_orOne (v : UInt32) : 1 ≤ (orOne v).toNat := by
  rw [toNat_orOne]
  split <;> omega

theorem Dim3.one_le_count (d : Dim3) : 1 ≤ d.count :=
  Nat.mul_pos (Nat.mul_pos (one_le_orOne d.x) (one_le_orOne d.y)) (one_le_orOne d.z)

/-! ## The bounds -/

/-- What holds of a launch that fits its device and its kernel. -/
structure Fits (prop : DeviceProp) (k : KernelBinding) (grid block : Dim3) (shared : UInt64) : Prop where
  threads : (block.count : ℤ) ≤ prop.maxThreadsPerBlock.toInt
  kernel : k.maxThreadsPerBlock ≠ 0 → block.count ≤ k.maxThreadsPerBlock.toNat
  gridX : ((orOne grid.x).toNat : ℤ) ≤ prop.maxGridSize.1.toInt
  gridY : ((orOne grid.y).toNat : ℤ) ≤ prop.maxGridSize.2.1.toInt
  gridZ : ((orOne grid.z).toNat : ℤ) ≤ prop.maxGridSize.2.2.toInt
  shared : sharedBytes k shared ≤ prop.sharedMemPerBlock.toNat

/-- A launch that is accepted fits, with its exact local memory, and one that does not fit is refused and
enqueues nothing. -/
structure BoundsExact (t : TableDevice) (k : KernelBinding) (grid block : Dim3) (shared : UInt64) :
    Prop where
  accepted : ∀ (P : Platform) (s s' : Streams) (cluster : Dim3) (args : Blob) (device : ℕ)
    (stream : Option ℕ) (r : LaunchReplies) (info : LaunchInfo),
    launchCommon P s t.prop k grid block cluster shared args device stream r = (s', .ok info) →
      Fits t.prop k grid block shared ∧ info.lmemSize.toNat = sharedBytes k shared
  refused : ∀ (P : Platform) (s : Streams) (cluster : Dim3) (args : Blob) (device : ℕ)
    (stream : Option ℕ) (r : LaunchReplies), ¬ Fits t.prop k grid block shared →
      (∃ e, (launchCommon P s t.prop k grid block cluster shared args device stream r).2 = .error e) ∧
        (launchCommon P s t.prop k grid block cluster shared args device stream r).1.board.log =
          s.board.log

/-- A check of the code meets the launch: the device runs no kernels, or what is left of a number in the
width that the code counts it in is zero or above a bound. -/
def Excluded (prop : DeviceProp) (k : KernelBinding) (grid block : Dim3) (shared : UInt64) : Prop :=
  prop.capabilities &&& GRX_CAP_KERNEL_LAUNCH = 0 ∨
    block.count % 2 ^ 32 = 0 ∨
    prop.maxThreadsPerBlock.toInt < Int.bmod block.count (2 ^ 32) ∨
    (0 < k.maxThreadsPerBlock.toNat ∧ k.maxThreadsPerBlock.toNat < block.count % 2 ^ 32) ∨
    (prop.maxGridSize.1.toUInt32 < grid.x ∨ prop.maxGridSize.2.1.toUInt32 < grid.y ∨
      prop.maxGridSize.2.2.toUInt32 < grid.z) ∨
    prop.sharedMemPerBlock.toNat < sharedBytes k shared % 2 ^ 64

section Bounds

variable {t : TableDevice} {prop : DeviceProp} {k : KernelBinding} {grid block : Dim3}
  {shared : UInt64}

/-- The checks, in the numbers that the code has. -/
theorem validate_eq_none_iff : validate prop k grid block shared = none ↔
    ¬ Excluded prop k grid block shared := by
  have hzero : volume block = 0 ↔ block.count % 2 ^ 32 = 0 := by
    rw [← toNat_volume, ← UInt32.toNat_inj]
    rfl
  have hthreads : prop.maxThreadsPerBlock < (volume block).toInt32 ↔
      prop.maxThreadsPerBlock.toInt < Int.bmod block.count (2 ^ 32) := by
    rw [Int32.lt_iff_toInt_lt, toInt_volume]
  have hkernel : 0 < k.maxThreadsPerBlock ∧ k.maxThreadsPerBlock < volume block ↔
      0 < k.maxThreadsPerBlock.toNat ∧ k.maxThreadsPerBlock.toNat < block.count % 2 ^ 32 := by
    rw [UInt32.lt_iff_toNat_lt, UInt32.lt_iff_toNat_lt, toNat_volume]
    rfl
  have hshared : prop.sharedMemPerBlock < shared + k.staticSmem.toUInt64 ↔
      prop.sharedMemPerBlock.toNat < sharedBytes k shared % 2 ^ 64 := by
    rw [UInt64.lt_iff_toNat_lt, toNat_shared]
  unfold validate Excluded
  rw [← hzero, ← hthreads, ← hkernel, ← hshared]
  dsimp only
  split_ifs <;> simp_all

/-- A grid that the code takes is within the device's, where that is the 32-bit maximum. -/
theorem orOne_le_of_not_lt {v : UInt32} (h : ¬ (0x7fffffff : Int32).toUInt32 < v) :
    ((orOne v).toNat : ℤ) ≤ (0x7fffffff : Int32).toInt := by
  have hle : v.toNat ≤ 0x7fffffff := UInt32.le_iff_toNat_le.mp (UInt32.not_lt.mp h)
  show ((orOne v).toNat : ℤ) ≤ 0x7fffffff
  rw [toNat_orOne]
  split <;> omega

/-- Without the wraps, the checks are the bounds. -/
theorem fits_of_not_excluded (h : ¬ Excluded t.prop k grid block shared)
    (hthreads : block.count < 2 ^ 31) (hshared : sharedBytes k shared < 2 ^ 32) :
    Fits t.prop k grid block shared := by
  unfold Excluded at h
  push Not at h
  obtain ⟨hlaunch, -, hdevice, hkernel, ⟨hx, hy, hz⟩, hbytes⟩ := h
  cases t with
  | npu => exact absurd (by decide) hlaunch
  | pta => exact absurd (by decide) hlaunch
  | gpu caps =>
    refine ⟨?_, fun hk => ?_, ?_, ?_, ?_, ?_⟩
    · rwa [Int.bmod_eq_of_le (by omega) (by omega)] at hdevice
    · have hpos : 0 < k.maxThreadsPerBlock.toNat :=
        Nat.pos_of_ne_zero fun hn => hk (UInt32.toNat_inj.mp hn)
      have hle := hkernel hpos
      rwa [Nat.mod_eq_of_lt (by omega)] at hle
    · exact orOne_le_of_not_lt hx
    · exact orOne_le_of_not_lt hy
    · exact orOne_le_of_not_lt hz
    · rwa [Nat.mod_eq_of_lt (by omega)] at hbytes

end Bounds

/-! ## The launch -/

section Launch

variable (P : Platform) (s : Streams) (t : TableDevice) (prop : DeviceProp) (k : KernelBinding)
  (grid block cluster : Dim3) (shared : UInt64) (args : Blob) (device : ℕ) (stream : Option ℕ)
  (r : LaunchReplies)

/-- What a launch does: it is refused and enqueues nothing, or it passes the checks and the driver takes
its descriptor. -/
theorem launchCommon_cases :
    ((∃ e, (launchCommon P s prop k grid block cluster shared args device stream r).2 = .error e) ∧
        (launchCommon P s prop k grid block cluster shared args device stream r).1.board.log =
          s.board.log) ∨
      (validate prop k grid block shared = none ∧
        ∃ s', launchCommon P s prop k grid block cluster shared args device stream r =
          (s', .ok (launchInfo k grid block cluster shared args))) := by
  have hboard := Streams.resolve_board P s stream device r.toReplies
  unfold launchCommon
  split
  · exact .inl ⟨⟨_, rfl⟩, rfl⟩
  split
  · exact .inl ⟨⟨_, rfl⟩, rfl⟩
  next hvalid =>
  rcases hresolve : Streams.resolveStream P s stream device r.toReplies with ⟨s', e | queue⟩ <;>
    rw [hresolve] at hboard
  · exact .inl ⟨⟨e, rfl⟩, congrArg _ hboard⟩
  · dsimp only
    split
    · exact .inl ⟨⟨_, rfl⟩, congrArg _ hboard⟩
    split
    · exact .inl ⟨⟨_, rfl⟩, congrArg _ hboard⟩
    · exact .inr ⟨hvalid, _, rfl⟩

/-- Without the sanitizer a launch is the plan that the thread's calls carry out, with the checks'
answer. -/
theorem launchCommon_eq_carryOut (x : Context) (hP : P.sanitize = false) :
    let y := Context.carryOut P x (Context.launchPlan k.kernel device r.acquire
      (validate prop k grid block shared)) stream r.toReplies
    (launchCommon P x.streams prop k grid block cluster shared args device stream r).1 = y.1.streams ∧
      (launchCommon P x.streams prop k grid block cluster shared args device stream r).2.map
        (fun _ => ()) = y.2 := by
  unfold launchCommon Context.launchPlan
  cases r.acquire with
  | some e => exact ⟨rfl, rfl⟩
  | none =>
    cases validate prop k grid block shared with
    | some e => exact ⟨rfl, rfl⟩
    | none =>
      simp only [Context.carryOut, Streams.submit, hP]
      rcases Streams.resolveStream P x.streams stream device r.toReplies with ⟨s', e | queue⟩
      · exact ⟨rfl, rfl⟩
      · cases r.enqueue <;> exact ⟨rfl, rfl⟩

/-- Any plain device has a null stream. -/
theorem resolveStream_plain :
    ∃ y queue, Streams.resolveStream plain {} none device {} = (y, .ok queue) := by
  have hstreams : (plain.device device).capabilities &&& GRX_CAP_STREAMS ≠ 0 :=
    show ({} : Device).capabilities &&& GRX_CAP_STREAMS ≠ 0 by decide
  have hqueue : Streams.makeQueue plain device 1 {} = .ok ⟨device, 1⟩ := if_neg hstreams
  have hnull : ({} : Streams).nullStreams.find? device = none := rfl
  unfold Streams.resolveStream Streams.stateOf Streams.nullStreamLocked
  dsimp only
  rw [hnull]
  dsimp only
  rw [hqueue]
  exact ⟨_, _, rfl⟩

/-- A launch that passes the checks is accepted, on the null stream of any plain device. -/
theorem launchCommon_accepts (hvalid : validate prop k grid block shared = none) :
    ∃ s', launchCommon plain {} prop k grid block cluster shared args device none {} =
      (s', .ok (launchInfo k grid block cluster shared args)) := by
  obtain ⟨y, queue, hresolve⟩ := resolveStream_plain device
  unfold launchCommon
  dsimp only
  rw [hvalid, hresolve]
  exact ⟨_, rfl⟩

/-- The bounds of a launch are exact if and only if a check meets it in any case, or its block has below
`2 ^ 31` threads and its shared memory is below `2 ^ 32` bytes. -/
theorem launch_bounds_iff : BoundsExact t k grid block shared ↔
    Excluded t.prop k grid block shared ∨
      (block.count < 2 ^ 31 ∧ sharedBytes k shared < 2 ^ 32) := by
  constructor
  · intro h
    by_cases hexcluded : Excluded t.prop k grid block shared
    · exact .inl hexcluded
    right
    obtain ⟨s', hs'⟩ := launchCommon_accepts t.prop k grid block {} shared (zeros 0) 0
      (validate_eq_none_iff.mpr hexcluded)
    obtain ⟨hfits, hlmem⟩ := h.accepted _ _ _ _ _ _ _ _ _ hs'
    constructor
    · have hlt := t.prop.maxThreadsPerBlock.toInt_lt
      have hle := hfits.threads
      omega
    · rw [← hlmem]
      exact UInt32.toNat_lt _
  · intro h
    constructor
    · intro P s s' cluster args device stream r info hok
      rcases launchCommon_cases P s t.prop k grid block cluster shared args device stream r with
        ⟨⟨e, he⟩, -⟩ | ⟨hvalid, s'', hs''⟩
      · rw [hok] at he
        cases he
      · rw [hok] at hs''
        cases hs''
        have hexcluded := validate_eq_none_iff.mp hvalid
        obtain ⟨hthreads, hshared⟩ := h.resolve_left hexcluded
        refine ⟨fits_of_not_excluded hexcluded hthreads hshared, ?_⟩
        rw [toNat_lmemSize, Nat.mod_eq_of_lt hshared]
    · intro P s cluster args device stream r hfits
      rcases launchCommon_cases P s t.prop k grid block cluster shared args device stream r with
        hrefused | ⟨hvalid, -⟩
      · exact hrefused
      · have hexcluded := validate_eq_none_iff.mp hvalid
        obtain ⟨hthreads, hshared⟩ := h.resolve_left hexcluded
        exact absurd (fits_of_not_excluded hexcluded hthreads hshared) hfits

end Launch

/-- A block of `2 ^ 32 + 2` threads passes for one of 2. -/
theorem launch_bounds_not :
    ¬ ∀ (t : TableDevice) (k : KernelBinding) (grid block : Dim3) (shared : UInt64),
      BoundsExact t k grid block shared := by
  intro h
  have hexact := h (.gpu {}) { kernel := ⟨0, 0⟩ } {} { x := 2147483649, y := 2 } 0
  obtain ⟨s', hs'⟩ := launchCommon_accepts (TableDevice.gpu {}).prop { kernel := ⟨0, 0⟩ } {}
    { x := 2147483649, y := 2 } {} 0 (zeros 0) 0 (by decide)
  have hthreads := (hexact.accepted _ _ _ _ _ _ _ _ _ hs').1.threads
  exact absurd hthreads (by decide)

end Grxcp.Runtime
