import Grxcp.Lib.Runs
import Grxcp.Runtime.TensorMap

/-!
# What a descriptor slot remembers

A call writes the fields of its rank, and the shared-memory stride if it is not 0. So the fields that
the engine reads for the rank of the last call are that call's, but for a stride of 0: it is not
written, and the slot keeps the last stride that was.
-/

namespace Grxcp.Runtime

/-- A call of `grxTensorMapProgramAsync`. -/
structure ProgramCall where
  desc : Option GrxTensorMapDesc
  replies : ProgramReplies := {}

namespace ProgramCall

def step (regs : SlotRegs) (c : ProgramCall) : SlotRegs :=
  (grxTensorMapProgramAsync regs c.desc c.replies).1

/-- The call returns `grxSuccess`. -/
def Succeeds (regs : SlotRegs) (c : ProgramCall) : Prop :=
  (grxTensorMapProgramAsync regs c.desc c.replies).2 = .ok ()

end ProgramCall

/-- The engine reads the field for a descriptor of that rank. -/
def DescField.ReadBy (rank : UInt32) : DescField → Prop
  | .size1 => 2 ≤ rank
  | .stride0 => 2 ≤ rank
  | .estride1 => 2 ≤ rank
  | _ => True

/-- The last stride other than 0 that calls on the slot asked for. -/
def inherited (slot : ℤ) : List ProgramCall → Option UInt32
  | [] => none
  | c :: cs =>
    (inherited slot cs).or <|
      c.desc.bind fun d =>
        if d.slot = slot ∧ d.smemStrideBytes ≠ 0 then some d.smemStrideBytes else none

/-! ## One call -/

theorem tensorMapWrites_ok {desc : Option GrxTensorMapDesc} {r : ProgramReplies}
    {ws : List DcrWrite} (h : tensorMapWrites desc r = .ok ws) :
    ∃ d, desc = some d ∧ ws = d.writes := by
  unfold tensorMapWrites at h
  split at h
  · cases h
  next d =>
  refine ⟨d, rfl, ?_⟩
  -- the thirteen checks, each of which fails first
  iterate 13
    split at h
    · cases h
  cases h
  rfl

/-- What a call that succeeds does. -/
theorem ProgramCall.Succeeds.step_eq {regs : SlotRegs} {c : ProgramCall} (h : c.Succeeds regs) :
    ∃ d, c.desc = some d ∧ ∀ regs, c.step regs = Writes.apply regs d.writes := by
  unfold ProgramCall.Succeeds grxTensorMapProgramAsync at h
  split at h
  · cases h
  next ws hws =>
  obtain ⟨d, hd, rfl⟩ := tensorMapWrites_ok hws
  refine ⟨d, hd, fun regs' => ?_⟩
  unfold ProgramCall.step grxTensorMapProgramAsync
  simp only [hws]
  split at h
  · rfl
  · split at h
    · cases h
    · next hge => simp only [if_neg hge]

variable {d : GrxTensorMapDesc} {slot : ℤ} {field : DescField} {regs fresh : SlotRegs}
  {calls : List ProgramCall}

/-- A descriptor writes to its own slot. -/
theorem slot_of_mem : ∀ w ∈ d.writes, w.1.1 = d.slot := by
  unfold GrxTensorMapDesc.writes
  split_ifs <;> simp [GrxTensorMapDesc.put]

theorem writes_other (h : d.slot ≠ slot) : Writes.last (slot, field) d.writes = none := by
  apply Writes.last_eq_none
  intro w hw heq
  apply h
  rw [← slot_of_mem w hw, heq]

/-- A field that is read for the descriptor's rank is written, but for the shared-memory stride. -/
theorem writes_read (hread : field.ReadBy d.rank) (hne : field ≠ .smemStride) :
    ∃ v, Writes.last (d.slot, field) d.writes = some v := by
  unfold GrxTensorMapDesc.writes
  cases field <;> split_ifs <;>
    simp_all [GrxTensorMapDesc.put, Writes.last, DescField.ReadBy]

/-- The shared-memory stride is written if it is not 0. -/
theorem writes_smemStride : Writes.last (d.slot, .smemStride) d.writes =
    if d.smemStrideBytes ≠ 0 then some d.smemStrideBytes else none := by
  unfold GrxTensorMapDesc.writes
  split_ifs <;> simp [GrxTensorMapDesc.put, Writes.last]

/-! ## The law of a slot -/

/-- The shared-memory stride of a slot after calls that succeed is the last one that was asked for. -/
theorem smemStride_after (h : Runs.Along ProgramCall.step ProgramCall.Succeeds regs calls) :
    Runs.after ProgramCall.step regs calls (slot, .smemStride) =
      (inherited slot calls).getD (regs (slot, .smemStride)) := by
  induction calls generalizing regs with
  | nil => rfl
  | cons c calls ih =>
    obtain ⟨d, hd, hstep⟩ := h.1.step_eq
    rw [Runs.after_cons, ih h.2, hstep, Writes.apply_eq]
    simp only [inherited, hd, Option.bind_some]
    by_cases hslot : d.slot = slot
    · subst hslot
      rw [writes_smemStride]
      cases inherited d.slot calls with
      | some v => rfl
      | none => simp
    · rw [writes_other hslot]
      simp [hslot]

/-- For every sequence of calls that succeed, on any slots, the fields that the engine reads for the
rank of the last descriptor are those of that descriptor alone on the fresh slot, if and only if its
shared-memory stride is not 0, or no earlier call on its slot left one other than the fresh slot's. -/
theorem slot_history_iff (fresh : SlotRegs) (calls : List ProgramCall) (last : ProgramCall)
    (d : GrxTensorMapDesc) (hd : last.desc = some d)
    (h : Runs.Along ProgramCall.step ProgramCall.Succeeds fresh (calls ++ [last])) :
    (∀ field : DescField, field.ReadBy d.rank →
      Runs.after ProgramCall.step fresh (calls ++ [last]) (d.slot, field) =
        Runs.after ProgramCall.step fresh [last] (d.slot, field)) ↔
    (d.smemStrideBytes ≠ 0 ∨
      ∀ v, inherited d.slot calls = some v → v = fresh (d.slot, .smemStride)) := by
  obtain ⟨hcalls, hlast, -⟩ := (Runs.along_append fresh calls [last]).mp h
  obtain ⟨d', hd', hstep⟩ := hlast.step_eq
  rw [hd] at hd'
  cases hd'
  have hafter : ∀ regs, Runs.after ProgramCall.step regs [last] = Writes.apply regs d.writes := by
    intro regs
    rw [Runs.after_cons, Runs.after_nil, hstep]
  rw [Runs.after_append, hafter, hafter]
  have hsmem : ∀ regs : SlotRegs, Writes.apply regs d.writes (d.slot, .smemStride) =
      if d.smemStrideBytes ≠ 0 then d.smemStrideBytes else regs (d.slot, .smemStride) := by
    intro regs
    rw [Writes.apply_eq, writes_smemStride]
    split_ifs <;> rfl
  have hother : ∀ field : DescField, field.ReadBy d.rank → field ≠ .smemStride →
      ∀ regs regs' : SlotRegs, Writes.apply regs d.writes (d.slot, field) =
        Writes.apply regs' d.writes (d.slot, field) := by
    intro field hread hne regs regs'
    obtain ⟨v, hv⟩ := writes_read hread hne
    rw [Writes.apply_of_last hv, Writes.apply_of_last hv]
  have hleft : Runs.after ProgramCall.step fresh calls (d.slot, .smemStride) = _ :=
    smemStride_after hcalls
  constructor
  · intro hall
    by_cases hzero : d.smemStrideBytes = 0
    · right
      intro v hv
      have hsame := hall .smemStride trivial
      rw [hsmem, hsmem, if_neg (not_not.mpr hzero), if_neg (not_not.mpr hzero), hleft, hv] at hsame
      exact hsame
    · exact .inl hzero
  · intro hcond field hread
    by_cases hfield : field = .smemStride
    · subst hfield
      rw [hsmem, hsmem]
      rcases hcond with hne | hnone
      · rw [if_pos hne, if_pos hne]
      · rw [hleft]
        cases hv : inherited d.slot calls with
        | none => rfl
        | some v => rw [hnone v hv, Option.getD_some]
    · exact hother field hread hfield _ _

/-- A row of four words, with or without a multicast stride. -/
def rowDesc (smemStrideBytes : UInt32) : GrxTensorMapDesc where
  base := 4096
  rank := 1
  size _ := 4
  tile _ := 4
  elementBytes := 4
  smemStrideBytes := smemStrideBytes

/-- The call for it, in an allocation of 64 bytes. -/
def rowCall (smemStrideBytes : UInt32) : ProgramCall where
  desc := some (rowDesc smemStrideBytes)
  replies := { mapping := some { size := 64 } }

theorem rowCall_succeeds (regs : SlotRegs) (smemStrideBytes : UInt32) :
    (rowCall smemStrideBytes).Succeeds regs := by
  have hok : tensorMapWrites (rowCall smemStrideBytes).desc (rowCall smemStrideBytes).replies =
      .ok (rowDesc smemStrideBytes).writes := rfl
  unfold ProgramCall.Succeeds grxTensorMapProgramAsync
  rw [hok]
  rfl

/-- A row, and then another one with a stride. -/
theorem slot_history_two_rows :
    Runs.after ProgramCall.step (fun _ => 0) ([rowCall 0] ++ [rowCall 512])
        ((rowDesc 512).slot, .smemStride) =
      Runs.after ProgramCall.step (fun _ => 0) [rowCall 512] ((rowDesc 512).slot, .smemStride) :=
  (slot_history_iff (fun _ => 0) [rowCall 0] (rowCall 512) (rowDesc 512) rfl
    ⟨rowCall_succeeds _ _, rowCall_succeeds _ _, trivial⟩).mpr (.inl (by decide)) .smemStride trivial

/-- After a multicast row, a row without one still multicasts. -/
theorem slot_history_not :
    ¬ ∀ (fresh : SlotRegs) (calls : List ProgramCall) (last : ProgramCall) (d : GrxTensorMapDesc),
      last.desc = some d →
      Runs.Along ProgramCall.step ProgramCall.Succeeds fresh (calls ++ [last]) →
      ∀ field : DescField, field.ReadBy d.rank →
        Runs.after ProgramCall.step fresh (calls ++ [last]) (d.slot, field) =
          Runs.after ProgramCall.step fresh [last] (d.slot, field) := by
  intro h
  have hrun : Runs.Along ProgramCall.step ProgramCall.Succeeds (fun _ => 0)
      ([rowCall 512] ++ [rowCall 0]) :=
    ⟨rowCall_succeeds _ _, rowCall_succeeds _ _, trivial⟩
  have hsame := h _ _ _ _ rfl hrun .smemStride trivial
  have hleft : Runs.after ProgramCall.step (fun _ => 0) ([rowCall 512] ++ [rowCall 0])
      ((rowDesc 0).slot, .smemStride) = 512 := by decide +kernel
  have hright : Runs.after ProgramCall.step (fun _ => 0) [rowCall 0]
      ((rowDesc 0).slot, .smemStride) = 0 := by decide +kernel
  rw [hleft, hright] at hsame
  exact absurd hsame (by decide)

end Grxcp.Runtime
