import Grxcp.Npu.ShimRuns
import Grxcp.Pta.TileExact

/-!
# A start on the tile

The shim takes the exact loop where no impairment is on, since swapping the tile in is to be bit-identical
there. It is: on a tile whose impairments are off, or on with no magnitude, `pta_gemm` comes to the words
that the loop stores (`inert_start`).
-/

namespace Grxcp.NpuDpi

open Blas (Bytes writeWords)
open MajorOrder (productCells)

namespace Shim

variable {s : Shim} {dev : PtaTile.Device}

theorem putWords_eq (mem : Bytes) {base : U32} {C : List ℤ} (hc : base.toNat + 4 * C.length ≤ 2 ^ 32) :
    putWords mem base C = writeWords mem base.toNat (C.map (BitVec.ofInt 32)) := by
  have hrun : ∀ n ≤ C.length, (List.range n).foldl
      (fun mem i => putWord mem (base + BitVec.ofNat 32 i * 4) (BitVec.ofInt 32 (C.getD i 0))) mem =
        writeWords mem base.toNat ((C.take n).map (BitVec.ofInt 32)) := by
    intro n
    induction n with
    | zero =>
      intro _
      funext x
      exact (writeWords_of_outside mem fun hin => by simp at hin; omega).symm
    | succ n ih =>
      intro hn
      have haddr : (base + BitVec.ofNat 32 n * 4).toNat = base.toNat + 4 * n := by
        rw [BitVec.toNat_add, BitVec.toNat_mul, BitVec.toNat_ofNat, show (4 : U32).toNat = 4 from rfl]
        omega
      have hlen : ((C.take n).map (BitVec.ofInt 32)).length = n := by
        rw [List.length_map, List.length_take]
        omega
      have hconcat := writeWords_concat mem base.toNat ((C.take n).map (BitVec.ofInt 32)) (BitVec.ofInt 32 (C.getD n 0))
      rw [hlen] at hconcat
      rw [List.range_succ, List.foldl_append, List.foldl_cons, List.foldl_nil, ih (by omega),
        putWord_eq _ (by rw [haddr]; omega), haddr, hconcat]
      congr 1
      rw [List.take_add_one, List.map_append, List.getD_eq_getElem?_getD, List.getElem?_eq_getElem (by omega)]
      rfl
  have hall := hrun C.length le_rfl
  rw [List.take_length] at hall
  exact hall

/-- The impairments that are on have no magnitude, for the tile as it is. -/
structure Inert (s : Shim) (dev : PtaTile.Device) : Prop where
  clean : PtaTile.Clean s.tileCfg tileGeom 0 dev
  rows : dev.rows = tileGeom.rows
  cols : dev.cols = tileGeom.cols
  act : s.impair &&& PtaTile.quantBit = 0 ∨ s.bits &&& 0xF = 0
  w : s.impair &&& PtaTile.quantBit = 0 ∨ (s.bits >>> 4) &&& 0xF = 0

theorem quant_off (x : ℤ) (dinW : ℕ) : PtaTile.quant x 0 dinW = x :=
  if_pos (.inl rfl)

theorem Inert.activation (h : s.Inert dev) (x : ℤ) : PtaTile.activation s.tileCfg tileGeom x = x := by
  unfold PtaTile.activation
  rcases h.act with hoff | hbits
  · exact if_neg (not_not.mpr hoff)
  · rw [show s.tileCfg.actBits = 0 from hbits, quant_off, ite_self]

theorem Inert.weight (h : s.Inert dev) (x : ℤ) : PtaTile.weight s.tileCfg tileGeom x = x := by
  unfold PtaTile.weight
  rcases h.w with hoff | hbits
  · exact if_neg (not_not.mpr hoff)
  · rw [show s.tileCfg.wBits = 0 from hbits, quant_off, ite_self]

/-- The low bits of a sum that the accumulator holds are those of the sum. -/
theorem ofInt_bmod (x : ℤ) : BitVec.ofInt 32 (x.bmod (2 ^ 48)) = BitVec.ofInt 32 x := by
  apply BitVec.eq_of_toInt_eq
  rw [BitVec.toInt_ofInt, BitVec.toInt_ofInt]
  apply Int.bmod_bmod_of_dvd
  exact ⟨2 ^ 16, by norm_num⟩

theorem gemmTile_run {dev' : PtaTile.Device} {sats : ℤ} {C : List ℤ}
    (hgemm : PtaTile.gemm s.tileCfg tileGeom (s.tileDev.getD { rows := 0, cols := 0 }) 0 s.dimM.toInt s.dimN.toInt
      s.dimK.toInt
      ((List.range (s.dimM * s.dimK).toNat).map fun i => operand s.ddr s.prec s.aBase (BitVec.ofNat 32 i))
      ((List.range (s.dimK * s.dimN).toNat).map fun i => operand s.ddr s.prec s.bBase (BitVec.ofNat 32 i)) =
        (dev', some (sats, C))) :
    s.gemmTile = ({ s with
      tileDev := some dev'
      ddr := putWords s.ddr s.cBase (C.take (s.dimM * s.dimN).toNat)
      satCt := BitVec.ofInt 32 sats }, true) := by
  unfold gemmTile
  simp only [hgemm]

/-- An inert tile stores the words of the product. -/
theorem Inert.gemmTile_eq (h : s.Inert dev) (hdev : s.tileDev = some dev) (hs : s.Sized) (hm : s.dimM ≠ 0)
    (hn : s.dimN ≠ 0) (hk : s.dimK ≠ 0) :
    s.gemmTile.2 = true ∧ s.gemmTile.1.ddr = writeWords s.ddr s.cBase.toNat s.product := by
  have hsize : ddrSize.toNat = 65536 := rfl
  have hpos : ∀ x : U32, x ≠ 0 → 1 ≤ x.toNat := fun x hx =>
    Nat.one_le_iff_ne_zero.mpr fun h0 => hx (BitVec.eq_of_toNat_eq h0)
  have hmpos := hpos _ hm
  have hnpos := hpos _ hn
  have hkpos := hpos _ hk
  have hc := hs.c
  have hinner := hs.inner
  have houter := hs.outer
  -- the dimensions are small enough to be themselves as an `int`
  have hmint : s.dimM.toInt = (s.dimM.toNat : ℤ) := BitVec.toInt_eq_toNat_of_lt (by nlinarith)
  have hnint : s.dimN.toInt = (s.dimN.toNat : ℤ) := BitVec.toInt_eq_toNat_of_lt (by nlinarith)
  have hkint : s.dimK.toInt = (s.dimK.toNat : ℤ) := BitVec.toInt_eq_toNat_of_lt (by nlinarith)
  have hmk : (s.dimM * s.dimK).toNat = s.dimM.toNat * s.dimK.toNat := by
    rw [BitVec.toNat_mul, Nat.mod_eq_of_lt (by omega)]
  have hkn : (s.dimK * s.dimN).toNat = s.dimK.toNat * s.dimN.toNat := by
    rw [BitVec.toNat_mul, Nat.mod_eq_of_lt (by omega)]
  have hmn : (s.dimM * s.dimN).toNat = s.dimM.toNat * s.dimN.toNat := by
    rw [BitVec.toNat_mul, Nat.mod_eq_of_lt (by omega)]
  let A := (List.range (s.dimM.toNat * s.dimK.toNat)).map fun i =>
    operand s.ddr s.prec s.aBase (BitVec.ofNat 32 i)
  let B := (List.range (s.dimK.toNat * s.dimN.toNat)).map fun i =>
    operand s.ddr s.prec s.bBase (BitVec.ofNat 32 i)
  have hshape : PtaTile.Shaped tileGeom dev 0 s.dimM.toNat s.dimN.toNat s.dimK.toNat :=
    ⟨hmpos, hnpos, hkpos, by decide, by decide, by decide, by decide, by decide, h.rows, h.cols⟩
  obtain ⟨st', dev', -, hrun⟩ := PtaTile.gemmSt_clean h.clean hshape (PtaTile.start s.tileCfg.seed) A B
  have hgemm : PtaTile.gemm s.tileCfg tileGeom dev 0 s.dimM.toInt s.dimN.toInt s.dimK.toInt A B =
      (dev', some (0, PtaTile.tileProduct s.tileCfg tileGeom s.dimM.toNat s.dimN.toNat s.dimK.toNat A B)) := by
    unfold PtaTile.gemm
    rw [hmint, hnint, hkint, ← Nat.cast_zero (R := ℤ), hrun]
    rfl
  have hlen : (PtaTile.tileProduct s.tileCfg tileGeom s.dimM.toNat s.dimN.toNat s.dimK.toNat A B).length =
      s.dimM.toNat * s.dimN.toNat := by
    rw [PtaTile.tileProduct, List.length_map, productCells, List.length_map, List.length_range]
  have hwords : (PtaTile.tileProduct s.tileCfg tileGeom s.dimM.toNat s.dimN.toNat s.dimK.toNat A B).map
      (BitVec.ofInt 32) = s.product := by
    unfold PtaTile.tileProduct product productCells
    rw [List.map_map, List.map_map, List.map_map]
    refine List.map_congr_left fun q hq => ?_
    rw [List.mem_range] at hq
    dsimp only [Function.comp_apply]
    rw [show tileGeom.accW = 48 from rfl, ofInt_bmod]
    congr 1
    refine Finset.sum_congr rfl fun p hp => ?_
    rw [Finset.mem_range] at hp
    have hrow : q / s.dimN.toNat < s.dimM.toNat := Nat.div_lt_of_lt_mul (by rwa [Nat.mul_comm] at hq)
    have hcol : q % s.dimN.toNat < s.dimN.toNat := Nat.mod_lt q (by omega)
    rw [h.activation, h.weight, List.getD_eq_getElem?_getD, List.getD_eq_getElem?_getD, List.getElem?_map,
      List.getElem?_map, List.getElem?_range (by nlinarith), List.getElem?_range (by nlinarith)]
    rfl
  have htile := gemmTile_run (s := s) (by rw [hmk, hkn, hdev]; exact hgemm)
  rw [htile]
  refine ⟨rfl, ?_⟩
  rw [hmn, ← hlen, List.take_length, putWords_eq _ (by rw [hlen]; omega), hwords]

end Shim

end Grxcp.NpuDpi
