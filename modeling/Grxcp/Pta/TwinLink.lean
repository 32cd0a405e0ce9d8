import Grxcp.Pta.Driver
import Grxcp.Pta.TwinClock
import Grxcp.Pta.TwinRuns

/-!
# The driver in front of the twin

The hooks a test or a model gives the driver: the window and the link are the twin's own calls, and a
read of `PTA_STATUS` is where the twin's time passes. What the twin stores lands in the host's
memory, where the driver's local variable and the caller's buffer are.
-/

namespace Grxcp.PtaChiplet

open PtaTwin

variable {Dev P : Type}

/-! ## The status word -/

/-- The status a read of `PTA_STATUS` gives. -/
theorem read32_status (t : Twin Dev P) : PtaTwin.read32 t ptaStatus = (t, statusWord t) := rfl

/-- `BUSY` or `CAL_BUSY`: something holds the tile. -/
theorem statusWord_idle {t : Twin Dev P} (ht : Settled t) :
    statusWord t &&& (statusBusy ||| statusCalBusy) = 0 ↔ t.state = .idle := by
  have hb := statusWord_busy t
  have hc := statusWord_calBusy t
  rw [show statusBusy ||| statusCalBusy = (0x10 : U32) ||| 0x01 from rfl]
  rw [BitVec.and_or_distrib_left]
  show _ = 0#32 ↔ _
  rw [BitVec.or_eq_zero_iff]
  constructor
  · rintro ⟨h₁, h₂⟩
    have hp : pending t = 0 := by
      by_contra h
      exact hb.mpr (Nat.pos_of_ne_zero h) h₁
    cases hs : t.state with
    | idle => rfl
    | gemm => simp [pending, hs] at hp
    | cal => exact absurd h₂ (hc.mpr hs)
  · intro hi
    refine ⟨?_, ?_⟩
    · by_contra h
      have := hb.mp h
      simp [pending, hi, (ht hi).1] at this
    · by_contra h
      rw [hc.mp h] at hi
      cases hi

variable [DecidableEq P] (k : TileKernel Dev) (cost : U64)

/-! ## The hooks -/

/-- The twin, and the words of the host's memory that it writes: the status words and the result
buffers of the commands. The counts of saturated and clamped results go nowhere, the driver asks for
neither. -/
structure Site (Dev P : Type) where
  twin : Twin Dev P
  status : P → CmdStatus := fun _ => .pending
  result : P → List ℤ := fun _ => []

/-- One store of the twin's. -/
def Site.store (s : Site Dev P) : Store P → Site Dev P
  | .result p out => { s with result := Function.update s.result p out }
  | .status p st => { s with status := Function.update s.status p st }
  | _ => s

/-- The twin has moved, and what it ended is written out. -/
def Site.moved (s : Site Dev P) (r : Twin Dev P × List (Ending P)) : Site Dev P :=
  (r.2.flatMap Ending.stores).foldl Site.store { s with twin := r.1 }

/-- The window's read hook. A poll is where the time goes: `cost` cycles of it. -/
def Site.read32 (s : Site Dev P) (off : U32) : Site Dev P × U32 :=
  let s := if off = ptaStatus then s.moved (PtaTwin.run k s.twin cost) else s
  let (twin, v) := PtaTwin.read32 s.twin off
  ({ s with twin }, v)

/-- The window's write hook. -/
def Site.write32 (s : Site Dev P) (off v : U32) : Site Dev P :=
  s.moved (PtaTwin.write32 k s.twin off v)

/-- The link's hook. -/
def Site.submit (s : Site Dev P) (c : Cmd P) : Site Dev P × Bool :=
  let (accepted, r) := PtaTwin.submit k s.twin c
  (s.moved r, accepted)

/-- The driver's own memory. On the link's path it touches no bytes. -/
def siteHost : Host (Site Dev P) P where
  status s p := s.status p
  setStatus s p st := { s with status := Function.update s.status p st }
  setC s p out := { s with result := Function.update s.result p out }
  ld32 s _ := (s, 0)
  store s _ _ := s

/-- A device with no queue whose hooks are the twin's, as far as it has any. -/
def linkDevice (window link present : Bool) : Device (Site Dev P) P :=
  { present
    read32 := if window then some (Site.read32 k cost) else none
    write32 := if window then some (Site.write32 k) else none
    submit := if link then some (Site.submit k) else none }

/-! ## What they do to the twin -/

variable {k cost} {s : Site Dev P}

@[simp] theorem foldl_store_twin (ss : List (Store P)) :
    ∀ s : Site Dev P, (ss.foldl Site.store s).twin = s.twin := by
  induction ss with
  | nil => exact fun _ => rfl
  | cons st ss ih =>
    intro s
    rw [List.foldl_cons, ih]
    cases st <;> rfl

@[simp] theorem moved_twin (s : Site Dev P) (r : Twin Dev P × List (Ending P)) :
    (s.moved r).twin = r.1 :=
  foldl_store_twin _ _

/-! ## Looking at it -/

variable {d : Driver (Site Dev P) P}

/-- One look lets the twin run, and sees whether something holds the tile. -/
theorem idle_spec (hr : d.dev.read32 = some (Site.read32 k cost)) (hs : Settled d.env.twin) :
    d.idle.1.dev = d.dev ∧ d.idle.1.env.twin = polled k cost 1 d.env.twin ∧
      (d.idle.2 = true ↔ (polled k cost 1 d.env.twin).state = .idle) := by
  have hrd : d.rd ptaStatus =
      ({ d with env := (Site.read32 k cost d.env ptaStatus).1 },
        (Site.read32 k cost d.env ptaStatus).2) := by
    unfold Driver.rd
    rw [hr]
  have hread : Site.read32 k cost d.env ptaStatus =
      (d.env.moved (run k d.env.twin cost), statusWord (run k d.env.twin cost).1) := by
    unfold Site.read32
    rw [if_pos rfl]
    simp only [read32_status, moved_twin]
    congr 1
    rw [← moved_twin d.env (run k d.env.twin cost)]
  unfold Driver.idle
  rw [hrd, hread]
  refine ⟨rfl, moved_twin _ _, ?_⟩
  show (statusWord _ &&& _ == 0) = true ↔ _
  rw [beq_iff_eq]
  exact statusWord_idle (run_settled k hs cost)

/-- What waiting for the tile comes to: it is free after so many looks, or it was at none of them. -/
theorem waitIdle_spec (n : ℕ) :
    ∀ d : Driver (Site Dev P) P, d.dev.read32 = some (Site.read32 k cost) → Settled d.env.twin →
      (d.waitIdle n).1.dev = d.dev ∧
        (((d.waitIdle n).2 = true ∧ ∃ m ≤ n,
            (d.waitIdle n).1.env.twin = polled k cost m d.env.twin ∧
              (polled k cost m d.env.twin).state = .idle) ∨
          ((d.waitIdle n).2 = false ∧ (d.waitIdle n).1.env.twin = polled k cost n d.env.twin ∧
            ∀ m ≤ n, m ≠ 0 → (polled k cost m d.env.twin).state ≠ .idle)) := by
  induction n with
  | zero => exact fun d _ _ => ⟨rfl, .inr ⟨rfl, rfl, fun m hm h0 => absurd (Nat.le_zero.mp hm) h0⟩⟩
  | succ n ih =>
    intro d hr hs
    obtain ⟨hdev, htwin, hidle⟩ := idle_spec hr hs
    unfold Driver.waitIdle
    rcases hi : d.idle with ⟨d', seen⟩
    rw [hi] at hdev htwin hidle
    cases seen with
    | true => exact ⟨hdev, .inl ⟨rfl, 1, by omega, htwin, hidle.mp rfl⟩⟩
    | false =>
      have hbusy : (polled k cost 1 d.env.twin).state ≠ .idle := fun h => by
        simpa using hidle.mpr h
      obtain ⟨hdev', hrest⟩ := ih d' (hdev ▸ hr) (htwin ▸ polled_settled 1 _ hs)
      have hadd : ∀ m, polled k cost m d'.env.twin = polled k cost (1 + m) d.env.twin := by
        intro m
        rw [polled_add, ← htwin]
      refine ⟨hdev'.trans hdev, ?_⟩
      obtain ⟨hseen, m, hm, heq, hfree⟩ | ⟨hseen, heq, hall⟩ := hrest
      · refine .inl ⟨hseen, 1 + m, by omega, heq.trans (hadd m), ?_⟩
        rw [← hadd]
        exact hfree
      · refine .inr ⟨hseen, heq.trans ((hadd n).trans (by rw [Nat.add_comm])), ?_⟩
        intro m hm h0
        obtain rfl | ⟨m', rfl, h0'⟩ : m = 1 ∨ ∃ m', m = 1 + m' ∧ m' ≠ 0 := by
          rcases m with _ | _ | m
          · exact absurd rfl h0
          · exact .inl rfl
          · exact .inr ⟨m + 1, by omega, by omega⟩
        · exact hbusy
        · rw [← hadd]
          exact hall m' (by omega) h0'

end Grxcp.PtaChiplet
