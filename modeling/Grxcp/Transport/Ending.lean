import Grxcp.Transport.Memory

/-!
# Ending

The host ends the oldest slot (`complete_eq`): a slot that has its record says of its results what is so,
and one that is lost says nothing. A teardown ends what the module has recorded and then everything else
as lost (`endBehind_eq`, `endLost_eq`), so that nothing is left pending.
-/

namespace Grxcp.BoardTransport

open Sim

variable {s s' s₁ : Sim} {h h' h'' : Host} {idx : ℕ} {c : Published}

/-! ## What ending leaves as it is -/

/-- The books, but for what has been ended and is expected next. -/
structure Ends (h h' : Host) : Prop where
  next : h'.next = h.next
  cmds : h'.cmds = h.cmds
  slotOf : h'.slotOf = h.slotOf
  owner : h'.owner = h.owner
  alloc : h'.alloc = h.alloc
  seed : h'.seed = h.seed
  phase : h'.phase = h.phase

theorem Ends.trans (he : Ends h h') (he' : Ends h' h'') : Ends h h'' :=
  ⟨he'.next.trans he.next, he'.cmds.trans he.cmds, he'.slotOf.trans he.slotOf, he'.owner.trans he.owner,
  he'.alloc.trans he.alloc,
    he'.seed.trans he.seed, he'.phase.trans he.phase⟩

theorem Book.ends (hb : Book h) (he : Ends h h') (hle : h.hhead ≤ h'.hhead) (hnext : h'.hhead ≤ h.next)
    (hended : ∀ idx, idx ∈ h'.ended ↔ idx < h'.hhead) : Book h' := by
  constructor
  case le => exact he.next ▸ hnext
  case room => exact he.next ▸ hb.room.trans (Nat.add_le_add_right hle _)
  case short => exact he.next ▸ hb.short
  case ended => exact hended
  case alloc => exact he.alloc ▸ hb.alloc
  case cmds => rw [he.next, he.cmds]; exact hb.cmds
  case wf => rw [he.next, he.cmds, he.alloc]; exact hb.wf
  case apart => rw [he.cmds]; exact hb.apart
  case seeds => rw [he.cmds, he.seed]; exact fun idx c hge => hb.seeds idx c (hle.trans hge)
  case slotOf => rw [he.next, he.slotOf]; exact hb.slotOf
  case slotLt => rw [he.next, he.slotOf]; exact hb.slotLt
  case owner => rw [he.owner, he.cmds]; exact hb.owner
  case owned => rw [he.owner, he.cmds]; exact hb.owned

/-- Only the host's own notes differ, and the checks that have fired since are the script's. -/
structure Noted (s s' : Sim) : Prop where
  state : ∃ f h', s' = { s with fired := f, host := h' }
  ends : Ends s.host s'.host
  hhead : s'.host.hhead = s.host.hhead
  ended : s'.host.ended = s.host.ended
  fired : ∀ c ∈ s'.fired, c ∈ s.fired ∨ c = .C3 ∨ c = .C4

theorem Noted.refl (s : Sim) : Noted s s :=
  ⟨⟨s.fired, s.host, rfl⟩, ⟨rfl, rfl, rfl, rfl, rfl, rfl, rfl⟩, rfl, rfl, fun _ hc => .inl hc⟩

theorem Noted.mem (hn : Noted s s') : s'.mem = s.mem := by
  obtain ⟨f, h', rfl⟩ := hn.state
  rfl

/-- A check that holds, or one of the script's. -/
theorem Noted.check (hn : Noted s s') {c : Check} {ok : Prop} [Decidable ok] (hok : ok ∨ c = .C3 ∨ c = .C4) :
    Noted s (s'.check c ok) := by
  unfold Sim.check
  split
  · exact hn
  case isFalse hno =>
    obtain ⟨⟨f, h', rfl⟩, hends, hhead, hended, hfired⟩ := hn
    refine ⟨⟨_, _, rfl⟩, hends, hhead, hended, fun c' hc' => ?_⟩
    rcases Finset.mem_insert.mp hc' with rfl | hc'
    · exact .inr (hok.resolve_left hno)
    · exact hfired c' hc'

/-- What the host expects of the next index. -/
theorem Noted.expect (hn : Noted s s') (last : ℕ) (restart slack : Bool) :
    Noted s (s'.setHost { s'.host with last := last, restart := restart, slack := slack }) := by
  obtain ⟨⟨f, h', rfl⟩, hends, hhead, hended, hfired⟩ := hn
  exact ⟨⟨_, _, rfl⟩, ⟨hends.next, hends.cmds, hends.slotOf, hends.owner, hends.alloc, hends.seed, hends.phase⟩,
    hhead, hended, hfired⟩

/-! ## A record says what is so -/

theorem Told.status {mem : ℕ → Line} {st index : ℕ} (h : Told mem c st index) :
    st % 2 ^ 32 = st ∧ st ≠ PENDING := by
  rcases h with ⟨rfl, -⟩ | ⟨rfl | rfl | rfl, -⟩ <;> decide

theorem Recorded.not_pending {mem : ℕ → Line} (h : Recorded mem idx c) (hwf : c.Wf) :
    u32 (mem (slotAddr idx)) 0x30 ≠ PENDING := by
  obtain ⟨st, index, hm, htold⟩ := h
  rw [hm, recordOf_status hwf.desc_length, htold.status.1]
  exact htold.status.2

theorem Published.Wf.desc_pending (h : c.Wf) : u32 c.desc 0x30 = PENDING := by
  rw [h.desc]
  exact (packDesc_fields _ _ _ _ _ _ _ _ _).2.2.2.2.2.2.2.2.2

/-- The results of a command that is done unpack to its sums. -/
theorem Finished.results (hwf : c.Wf) {index : ℕ} (hf : Finished s.mem c index) :
    ((List.range (c.M * c.N)).map fun j => i32 (s.outBytes c) (4 * j)) =
      gemm (c.A.map BitVec.toInt) (c.W.map BitVec.toInt) c.M c.K c.N (gemmSeed c.seed (index % 2 ^ 32)) := by
  have hlen : (c.sums index).length = c.M * c.N := gemm_length _ _ _ _ _ _
  have hout : s.outBytes c = (List.range (lines ((c.sums index).length * R_BYTES))).flatMap
    (lineOf (resultBytes (c.sums index))) := by
    unfold Sim.outBytes
    rw [hlen, ← hwf.outLines, List.flatMap_def, List.flatMap_def]
    exact congrArg List.flatten (List.map_congr_left fun i hi => hf i (List.mem_range.mp hi))
  rw [hout, ← hlen, unpack_results (c.sums index) (gemm_bounds _ _ _ _ _ _ hwf.inner), gemmSeed_mod]
  rfl

theorem Untouched.results (hu : Untouched s.mem c) : s.outBytes c = List.replicate (s.outBytes c).length SENTINEL := by
  refine List.eq_replicate_iff.mpr ⟨rfl, fun b hb => ?_⟩
  unfold Sim.outBytes at hb
  obtain ⟨i, hi, hb⟩ := List.mem_flatMap.mp hb
  rw [hu i (List.mem_range.mp hi)] at hb
  exact List.eq_of_mem_replicate hb

/-- The host ends a slot that has its record, or is lost. -/
theorem complete_eq (hwf : c.Wf)
    (hrec : Recorded s.mem idx c ∨ Kept s.mem idx c ∧ u32 (s.mem (slotAddr idx)) 0x30 = LOST) :
    ∃ f h', s.complete idx (s.mem (slotAddr idx)) c = { s with fired := f, host := h' } ∧ Ends s.host h' ∧
      h'.hhead = idx + 1 ∧
      h'.ended = insert idx s.host.ended ∧ ∀ c ∈ f, c ∈ s.fired ∨ c = .C3 ∨ c = .C4 := by
  have hkept : Kept s.mem idx c := hrec.elim (fun hr => hr.kept hwf) And.left
  have hfinal : ∀ {s₁ : Sim}, Noted s s₁ → ∀ ends : ℕ → ℕ, ∃ f h',
      s₁.setHost { s₁.host with ends := ends, ended := insert idx s₁.host.ended, hhead := idx + 1 } =
      { s with fired := f, host := h' } ∧
      Ends s.host h' ∧ h'.hhead = idx + 1 ∧ h'.ended = insert idx s.host.ended ∧ ∀ c ∈ f, c ∈ s.fired ∨ c = .C3 ∨
      c = .C4 := by
    rintro s₁ ⟨⟨f, h', rfl⟩, he, -, hended, hfired⟩ ends
    exact ⟨f, _, rfl, ⟨he.next, he.cmds, he.slotOf, he.owner, he.alloc, he.seed, he.phase⟩, rfl,
      congrArg (insert idx) hended, hfired⟩
  unfold Sim.complete
  dsimp only
  generalize hst : u32 (s.mem (slotAddr idx)) 0x30 = status
  generalize hix : u32 (s.mem (slotAddr idx)) 0x34 = index
  have hnoted : Noted s ((s.check .C7 ((s.mem (slotAddr idx)).take 0x30 = c.desc.take 0x30)).check .C3
      (status = c.expect ∨ c.teardown ∧ status = LOST)) :=
    ((Noted.refl s).check (.inl hkept.2)).check (.inr (.inl rfl))
  generalize (s.check .C7 ((s.mem (slotAddr idx)).take 0x30 = c.desc.take 0x30)).check .C3
    (status = c.expect ∨ c.teardown ∧ status = LOST) = s₁ at hnoted ⊢
  have hmem : s₁.mem = s.mem := hnoted.mem
  by_cases hdone : status = DONE
  · rw [if_pos hdone]
    -- only a record can say that it is done, and it was written after the results
    have hfin : ∃ i, Finished s₁.mem c i ∧ index = i % 2 ^ 32 := by
      rcases hrec with ⟨st, i, hm, htold⟩ | ⟨-, hlost⟩
      · rw [hm, recordOf_status hwf.desc_length, htold.status.1] at hst
        rw [hm, recordOf_index hwf.desc_length] at hix
        rcases htold with ⟨-, hf⟩ | ⟨hno, -⟩
        · exact ⟨i, hmem ▸ hf, hix.symm⟩
        · rw [hst, hdone] at hno
          exact absurd hno (by decide)
      · rw [hlost, hdone] at hst
        exact absurd hst (by decide)
    obtain ⟨i, hf, rfl⟩ := hfin
    exact hfinal (((hnoted.check (.inl (hf.results hwf))).check (.inr (.inr rfl))).expect _ _ _) _
  rw [if_neg hdone]
  by_cases hnot : status = REFUSED ∨ status = NOT_ISSUED ∨ status = NOT_RUN
  · rw [if_pos hnot]
    -- a status that says the command was not run is not the one of a finished GEMM
    have hun : Untouched s₁.mem c := by
      rcases hrec with ⟨st, i, hm, htold⟩ | ⟨-, hlost⟩
      · rw [hm, recordOf_status hwf.desc_length, htold.status.1] at hst
        rcases htold with ⟨hno, -⟩ | ⟨-, -, hu⟩
        · exact absurd (hst.symm.trans hno) hdone
        · exact hmem ▸ hu
      · rw [← hst, hlost] at hnot
        exact absurd hnot (by decide)
    exact hfinal ((hnoted.check (.inl hun.results)).check (.inr (.inr rfl))) _
  · rw [if_neg hnot]
    exact hfinal hnoted _

/-! ## The oldest slot -/

/-- The host has ended some more: the module and what is in flight are as they were. -/
structure Shorter (s s' : Sim) : Prop where
  state : ∃ mem f h', s' = { s with mem := mem, fired := f, host := h' }
  ends : Ends s.host s'.host
  book : Book s'.host
  le : s.host.hhead ≤ s'.host.hhead
  fired : ∀ c ∈ s'.fired, c ∈ s.fired ∨ c = .C3 ∨ c = .C4

theorem Shorter.refl (hb : Book s.host) : Shorter s s :=
  ⟨⟨s.mem, s.fired, s.host, rfl⟩, ⟨rfl, rfl, rfl, rfl, rfl, rfl, rfl⟩, hb, le_rfl, fun _ hc => .inl hc⟩

theorem Shorter.trans (hs : Shorter s s₁) (hs' : Shorter s₁ s') : Shorter s s' := by
  obtain ⟨⟨mem, f, h', rfl⟩, hends, -, hle, hfired⟩ := hs
  obtain ⟨⟨mem', f', h'', rfl⟩, hends', hbook', hle', hfired'⟩ := hs'
  exact ⟨⟨_, _, _, rfl⟩, hends.trans hends', hbook', hle.trans hle', fun c hc => (hfired' c hc).elim (hfired c) .inr⟩

/-- The slot at the host's head is ended. -/
theorem complete_spec (hb : Book s.host) (hc : s.host.cmds s.host.hhead = some c)
    (hrec : Recorded s.mem s.host.hhead c ∨ Kept s.mem s.host.hhead c ∧
    u32 (s.mem (slotAddr s.host.hhead)) 0x30 = LOST) :
    Shorter s (s.complete s.host.hhead (s.mem (slotAddr s.host.hhead)) c) ∧
      (s.complete s.host.hhead (s.mem (slotAddr s.host.hhead)) c).mem = s.mem ∧
      (s.complete s.host.hhead (s.mem (slotAddr s.host.hhead)) c).host.hhead = s.host.hhead + 1 := by
  obtain ⟨f, h', heq, hends, hhead, hended, hfired⟩ := complete_eq (hb.wf _ c hc).1 hrec
  rw [heq]
  refine ⟨⟨⟨s.mem, f, h', rfl⟩, hends, ?_, hhead ▸ Nat.le_succ _, hfired⟩, rfl, hhead⟩
  refine hb.ends hends (hhead ▸ Nat.le_succ _) (hhead ▸ (hb.wf _ c hc).2.2) fun idx => ?_
  rw [hended, hhead, Finset.mem_insert, hb.ended]
  omega

theorem tryEnd_eq (h : s.tryEnd = some s') :
    ∃ c, s.host.cmds s.host.hhead = some c ∧ s.status s.host.hhead ≠ PENDING ∧
      s' = s.complete s.host.hhead (s.mem (slotAddr s.host.hhead)) c := by
  unfold Sim.tryEnd at h
  split at h
  · exact absurd h.symm (Option.some_ne_none _)
  case isFalse hno =>
    obtain ⟨c, hc, rfl⟩ := Option.map_eq_some_iff.mp h
    exact ⟨c, hc, fun hp => hno (.inr hp), rfl⟩

/-- The slots that the module has recorded are ended, as many as are asked for. -/
theorem endBehind_eq (H k : ℕ) {s : Sim} (hb : Book s.host) (hk : s.host.hhead + k ≤ H)
    (hrec : ∀ idx c, s.host.hhead ≤ idx → idx < H → s.host.cmds idx = some c → Recorded s.mem idx c) :
    Shorter s (endBehind k s) ∧ (endBehind k s).mem = s.mem := by
  induction k generalizing s with
  | zero => exact ⟨.refl hb, rfl⟩
  | succ k ih =>
    unfold endBehind
    split
    case h_1 => exact ⟨.refl hb, rfl⟩
    case h_2 s' htry =>
      obtain ⟨c, hc, -, rfl⟩ := tryEnd_eq htry
      have hlt : s.host.hhead < H := by omega
      obtain ⟨hshort, hmem, hhead⟩ := complete_spec hb hc (.inl (hrec _ c le_rfl hlt hc))
      obtain ⟨hshort', hmem'⟩ := ih hshort.book (by rw [hhead]; omega) fun idx c' hge hlt' hc' => by
        rw [hmem]
        rw [hhead] at hge
        rw [hshort.ends.cmds] at hc'
        exact hrec idx c' (Nat.le_of_succ_le hge) hlt' hc'
      exact ⟨hshort.trans hshort', hmem'.trans hmem⟩

/-! ## Everything else is lost -/

theorem foldl_markLost (idxs : List ℕ) (hnodup : (idxs.map slotAddr).Nodup) (s : Sim) :
    ∃ mem, idxs.foldl markLost s = { s with mem := mem } ∧
      (∀ idx ∈ idxs, mem (slotAddr idx) = lostOf (s.mem (slotAddr idx))) ∧
      ∀ y, y ∉ idxs.map slotAddr → mem y = s.mem y := by
  induction idxs generalizing s with
  | nil => exact ⟨s.mem, rfl, fun _ hin => absurd hin List.not_mem_nil, fun _ _ => rfl⟩
  | cons idx idxs ih =>
    rw [List.map_cons, List.nodup_cons] at hnodup
    obtain ⟨mem, heq, hin, hout⟩ := ih hnodup.2 (s.markLost idx)
    have hother : ∀ y, y ≠ slotAddr idx → (s.markLost idx).mem y = s.mem y := fun y hy => Function.update_of_ne hy _ _
    refine ⟨mem, by rw [List.foldl_cons, heq]; rfl, fun j hj => ?_, fun y hy => ?_⟩
    · rcases List.mem_cons.mp hj with rfl | hj
      · rw [hout _ hnodup.1]
        exact Function.update_self _ _ _
      · rw [hin j hj, hother]
        exact fun he => hnodup.1 (he ▸ List.mem_map_of_mem hj)
    · rw [List.map_cons, List.mem_cons, not_or] at hy
      exact (hout y hy.2).trans (hother y hy.1)

theorem foldl_endOne (k : ℕ) {s : Sim} (hb : Book s.host) (hk : s.host.hhead + k = s.host.next)
    (hlost : ∀ idx c, s.host.hhead ≤ idx → s.host.cmds idx = some c →
      Kept s.mem idx c ∧ u32 (s.mem (slotAddr idx)) 0x30 = LOST) :
    Shorter s ((List.range' s.host.hhead k).foldl endOne s) ∧
      ((List.range' s.host.hhead k).foldl endOne s).host.hhead = s.host.next := by
  induction k generalizing s with
  | zero => exact ⟨.refl hb, hk⟩
  | succ k ih =>
    obtain ⟨c, hc⟩ := hb.cmds s.host.hhead (by omega)
    obtain ⟨hkept, hst⟩ := hlost _ c le_rfl hc
    obtain ⟨hshort, hmem, hhead⟩ := complete_spec hb hc (.inr ⟨hkept, hst⟩)
    have hone : s.endOne s.host.hhead = s.complete s.host.hhead (s.mem (slotAddr s.host.hhead)) c := by
      unfold Sim.endOne
      rw [if_neg (show s.status s.host.hhead ≠ PENDING from fun hp => absurd (hst.symm.trans hp) (by decide)), hc]
    rw [List.range'_succ, List.foldl_cons, hone]
    generalize s.complete s.host.hhead (s.mem (slotAddr s.host.hhead)) c = s₁ at hshort hmem hhead
    rw [← hhead]
    obtain ⟨hshort', hend⟩ := ih hshort.book (by rw [hhead, hshort.ends.next]; omega) fun idx c' hge hc' => by
      rw [hmem]
      rw [hhead] at hge
      rw [hshort.ends.cmds] at hc'
      exact hlost idx c' (Nat.le_of_succ_le hge) hc'
    exact ⟨hshort.trans hshort', hend.trans hshort.ends.next⟩

/-- Nothing is left pending: every slot that was is the host's again. -/
theorem endLost_spec (hb : Book s.host) (hkept : ∀ idx c, s.host.hhead ≤ idx → s.host.cmds idx = some c →
    Kept s.mem idx c) :
    Shorter s s.endLost ∧ s.endLost.host.hhead = s.endLost.host.next := by
  set idxs := List.range' s.host.hhead (s.host.next - s.host.hhead) with hidxs
  have hmemIdx : ∀ {idx}, idx ∈ idxs ↔ s.host.hhead ≤ idx ∧ idx < s.host.next := by
    intro idx
    have hle := hb.le
    rw [hidxs, List.mem_range'_1]
    omega
  have hnodup : (idxs.map slotAddr).Nodup := by
    refine (List.nodup_map_iff_inj_on List.nodup_range').mpr fun i hi j hj hij => ?_
    obtain ⟨hi, hi'⟩ := hmemIdx.mp hi
    obtain ⟨hj, hj'⟩ := hmemIdx.mp hj
    by_contra hne
    exact slotAddr_ne hi (hi'.trans_le hb.room) hj (hj'.trans_le hb.room) hne hij
  -- both loops run over the same slots: every status is lost before the first slot is ended
  obtain ⟨mem, heq, hin, -⟩ := foldl_markLost idxs hnodup s
  have hlost : ∀ idx c, s.host.hhead ≤ idx → s.host.cmds idx = some c → Kept mem idx c ∧
    u32 (mem (slotAddr idx)) 0x30 = LOST := by
    intro idx c hge hc
    obtain ⟨hlen, htake⟩ := hkept idx c hge hc
    unfold Kept
    rw [hin idx (hmemIdx.mpr ⟨hge, (hb.wf idx c hc).2.2⟩)]
    exact ⟨⟨lostOf_length hlen, (lostOf_take hlen).trans htake⟩, lostOf_status hlen⟩
  obtain ⟨hshort, hend⟩ := foldl_endOne (s.host.next - s.host.hhead) (s := { s with mem := mem }) hb
    (Nat.add_sub_cancel' hb.le) hlost
  have hall : s.endLost = (idxs.foldl endOne { s with mem := mem }).setHost
      { (idxs.foldl endOne { s with mem := mem }).host with slack := true } := by
    unfold Sim.endLost
    dsimp only
    rw [← heq]
  rw [hall]
  change Shorter _ (idxs.foldl endOne { s with mem := mem }) at hshort
  change (idxs.foldl endOne { s with mem := mem }).host.hhead = s.host.next at hend
  obtain ⟨⟨mem', f, h', hstate⟩, he, hbk, hle, hfired⟩ := hshort
  rw [hstate] at he hbk hle hfired hend ⊢
  refine ⟨⟨⟨_, _, _, rfl⟩, ⟨he.next, he.cmds, he.slotOf, he.owner, he.alloc, he.seed, he.phase⟩, ?_, hle, hfired⟩,
    hend.trans he.next.symm⟩
  exact hbk.notes rfl rfl rfl rfl rfl rfl rfl hbk.seeds

end Grxcp.BoardTransport
