/-
# Address mapping

`addressMapping` throws the byte offset and the low bits of the column away and cuts the rest
of an address into the five parts of a location, in the order of the scheme.  No two blocks of
memory share a location, and every location has a block.
-/

import SpikeSim.Lib.Slices
import SpikeSim.Dram.Config

namespace SpikeSim.Dram

open Slices

/-- Where a block of memory is. -/
@[ext]
structure Location where
  chan : BitVec 32
  rank : BitVec 32
  bank : BitVec 32
  row : BitVec 32
  column : BitVec 32
  deriving DecidableEq

/-- A part of an address, and what is left of it: `tempA ^ tempB` as an `unsigned`. -/
def takeBits (width : ℕ) (physicalAddress : BitVec 64) : BitVec 32 × BitVec 64 :=
  let tempA := physicalAddress
  let rest := physicalAddress >>> width
  let tempB := rest <<< width
  ((tempA ^^^ tempB).setWidth 32, rest)

def addressMapping (g : Geometry) (scheme : AddressMappingScheme) (physicalAddress : BitVec 64) :
    Location :=
  let address := physicalAddress >>> g.byteOffsetWidth
  let address := address >>> g.colLowBitWidth
  let colHighBitWidth := g.numColsLog - g.colLowBitWidth
  match scheme with
  | .scheme1 =>
    -- chan:rank:row:col:bank
    let (bank, address) := takeBits g.numBanksLog address
    let (column, address) := takeBits colHighBitWidth address
    let (row, address) := takeBits g.numRowsLog address
    let (rank, address) := takeBits g.numRanksLog address
    let (chan, _) := takeBits g.numChansLog address
    { chan, rank, bank, row, column }
  | .scheme2 =>
    -- chan:row:col:bank:rank
    let (rank, address) := takeBits g.numRanksLog address
    let (bank, address) := takeBits g.numBanksLog address
    let (column, address) := takeBits colHighBitWidth address
    let (row, address) := takeBits g.numRowsLog address
    let (chan, _) := takeBits g.numChansLog address
    { chan, rank, bank, row, column }
  | .scheme3 =>
    -- chan:rank:bank:col:row
    let (row, address) := takeBits g.numRowsLog address
    let (column, address) := takeBits colHighBitWidth address
    let (bank, address) := takeBits g.numBanksLog address
    let (rank, address) := takeBits g.numRanksLog address
    let (chan, _) := takeBits g.numChansLog address
    { chan, rank, bank, row, column }
  | .scheme4 =>
    -- chan:rank:bank:row:col
    let (column, address) := takeBits colHighBitWidth address
    let (row, address) := takeBits g.numRowsLog address
    let (bank, address) := takeBits g.numBanksLog address
    let (rank, address) := takeBits g.numRanksLog address
    let (chan, _) := takeBits g.numChansLog address
    { chan, rank, bank, row, column }
  | .scheme5 =>
    -- chan:row:col:rank:bank
    let (bank, address) := takeBits g.numBanksLog address
    let (rank, address) := takeBits g.numRanksLog address
    let (column, address) := takeBits colHighBitWidth address
    let (row, address) := takeBits g.numRowsLog address
    let (chan, _) := takeBits g.numChansLog address
    { chan, rank, bank, row, column }
  | .scheme6 =>
    -- chan:row:bank:rank:col
    let (column, address) := takeBits colHighBitWidth address
    let (rank, address) := takeBits g.numRanksLog address
    let (bank, address) := takeBits g.numBanksLog address
    let (row, address) := takeBits g.numRowsLog address
    let (chan, _) := takeBits g.numChansLog address
    { chan, rank, bank, row, column }
  | .scheme7 =>
    -- row:col:rank:bank:chan
    let (chan, address) := takeBits g.numChansLog address
    let (bank, address) := takeBits g.numBanksLog address
    let (rank, address) := takeBits g.numRanksLog address
    let (column, address) := takeBits colHighBitWidth address
    let (row, _) := takeBits g.numRowsLog address
    { chan, rank, bank, row, column }

/-! ## The parts of an address as numbers -/

inductive Part
  | chan | rank | bank | row | column
  deriving DecidableEq

def Location.part (l : Location) : Part → BitVec 32
  | .chan => l.chan
  | .rank => l.rank
  | .bank => l.bank
  | .row => l.row
  | .column => l.column

/-- The width of a part; of the column, that of its high bits. -/
def Geometry.width (g : Geometry) : Part → ℕ
  | .chan => g.numChansLog
  | .rank => g.numRanksLog
  | .bank => g.numBanksLog
  | .row => g.numRowsLog
  | .column => g.numColsLog - g.colLowBitWidth

/-- The bits of an address within a block. -/
def Geometry.lowWidth (g : Geometry) : ℕ := g.byteOffsetWidth + g.colLowBitWidth

/-- The parts of an address, the lowest first. -/
def AddressMappingScheme.parts : AddressMappingScheme → List Part
  | .scheme1 => [.bank, .column, .row, .rank, .chan]
  | .scheme2 => [.rank, .bank, .column, .row, .chan]
  | .scheme3 => [.row, .column, .bank, .rank, .chan]
  | .scheme4 => [.column, .row, .bank, .rank, .chan]
  | .scheme5 => [.bank, .rank, .column, .row, .chan]
  | .scheme6 => [.column, .rank, .bank, .row, .chan]
  | .scheme7 => [.chan, .bank, .rank, .column, .row]

variable (g : Geometry) (scheme : AddressMappingScheme)

theorem Geometry.width_le (part : Part) : g.width part ≤ 32 := by
  cases part with
  | chan => exact g.chans_narrow
  | rank => exact g.ranks_narrow
  | bank => exact g.banks_narrow
  | row => exact g.rows_narrow
  | column => exact (Nat.sub_le _ _).trans g.cols_narrow

/-- The widths of the parts add up to the same number in every scheme. -/
theorem sum_widths : (scheme.parts.map g.width).sum = g.numChansLog + g.numRanksLog +
    g.numBanksLog + g.numRowsLog + (g.numColsLog - g.colLowBitWidth) := by
  cases scheme with
  | _ =>
      all_goals
        simp only [AddressMappingScheme.parts, List.map_cons, List.map_nil, List.sum_cons,
          List.sum_nil, Geometry.width]
        omega

theorem takeBits_snd (width : ℕ) (a : BitVec 64) :
    (takeBits width a).2.toNat = a.toNat / 2 ^ width := by
  rw [takeBits, BitVec.toNat_ushiftRight, Nat.shiftRight_eq_div_pow]

theorem takeBits_fst {width : ℕ} (h : width ≤ 32) (a : BitVec 64) :
    (takeBits width a).1.toNat = a.toNat % 2 ^ width := by
  have hbits : (takeBits width a).1 = (a.extractLsb' 0 width).setWidth 32 := by
    ext i hi
    simp only [takeBits, BitVec.getElem_setWidth, BitVec.getLsbD_xor, BitVec.getLsbD_shiftLeft,
      BitVec.getLsbD_ushiftRight, BitVec.getLsbD_extractLsb']
    by_cases hlow : i < width
    · simp [hlow, show i < 64 by omega]
    · simp [hlow, show i < 64 by omega, show width + (i - width) = i by omega]
  have hlt : a.toNat % 2 ^ width < 2 ^ 32 :=
    (Nat.mod_lt _ (Nat.two_pow_pos _)).trans_le (Nat.pow_le_pow_right (by decide) h)
  rw [hbits, BitVec.toNat_setWidth, BitVec.extractLsb'_toNat, Nat.shiftRight_zero,
    Nat.mod_eq_of_lt hlt]

/-- The scheme cuts the number of the block into the parts. -/
theorem addressMapping_parts (a : BitVec 64) :
    (scheme.parts.map fun part => ((addressMapping g scheme a).part part).toNat) =
      cut (scheme.parts.map g.width) (a.toNat / 2 ^ g.lowWidth) := by
  have hchan := takeBits_fst g.chans_narrow
  have hrank := takeBits_fst g.ranks_narrow
  have hbank := takeBits_fst g.banks_narrow
  have hrow := takeBits_fst g.rows_narrow
  have hcolumn := takeBits_fst (g.width_le .column)
  have hblock : a.toNat / 2 ^ g.lowWidth =
      (a >>> g.byteOffsetWidth >>> g.colLowBitWidth).toNat := by
    rw [BitVec.toNat_ushiftRight, BitVec.toNat_ushiftRight, Nat.shiftRight_eq_div_pow,
      Nat.shiftRight_eq_div_pow, Nat.div_div_eq_div_mul, ← pow_add]
    rfl
  rw [hblock]
  cases scheme with
  | _ =>
      all_goals
        simp only [AddressMappingScheme.parts, List.map_cons, List.map_nil, addressMapping,
          Location.part, cut, Geometry.width]
        simp only [Geometry.width] at hcolumn
        simp only [hchan, hrank, hbank, hrow, hcolumn, takeBits_snd]

theorem AddressMappingScheme.mem_parts (part : Part) : part ∈ scheme.parts := by
  cases scheme <;> cases part <;> decide

/-- The numbers of all parts determine a location. -/
theorem Location.ext_parts {l l' : Location}
    (h : (scheme.parts.map fun part => (l.part part).toNat) =
      scheme.parts.map fun part => (l'.part part).toNat) : l = l' := by
  have hpart (part : Part) : l.part part = l'.part part :=
    BitVec.eq_of_toNat_eq (List.map_inj_left.mp h part (scheme.mem_parts part))
  exact Location.ext (hpart .chan) (hpart .rank) (hpart .bank) (hpart .row) (hpart .column)

/-! ## Locations and blocks -/

/-- The location is one of the memory. -/
def Location.InRange (l : Location) : Prop := ∀ part, (l.part part).toNat < 2 ^ g.width part

/-- The number of bits that number the blocks of the memory. -/
def Geometry.blockWidth : ℕ := g.numChansLog + g.numRanksLog + g.numBanksLog + g.numRowsLog +
  (g.numColsLog - g.colLowBitWidth)

/-- The block of an address.  What is above the memory is thrown away. -/
def Geometry.block (a : BitVec 64) : ℕ := a.toNat / 2 ^ g.lowWidth % 2 ^ g.blockWidth

theorem addressMapping_inRange (a : BitVec 64) : (addressMapping g scheme a).InRange g := by
  intro part
  have hfits := fits_cut (scheme.parts.map g.width) (a.toNat / 2 ^ g.lowWidth)
  rw [← addressMapping_parts, Fits, List.forall₂_map_left_iff, List.forall₂_map_right_iff,
    List.forall₂_same] at hfits
  exact hfits part (scheme.mem_parts part)

theorem addressMapping_eq_iff (a b : BitVec 64) :
    addressMapping g scheme a = addressMapping g scheme b ↔ g.block a = g.block b := by
  have hparts : addressMapping g scheme a = addressMapping g scheme b ↔
      cut (scheme.parts.map g.width) (a.toNat / 2 ^ g.lowWidth) =
        cut (scheme.parts.map g.width) (b.toNat / 2 ^ g.lowWidth) := by
    rw [← addressMapping_parts, ← addressMapping_parts]
    exact ⟨fun h => by rw [h], Location.ext_parts scheme⟩
  rw [hparts, cut_eq_cut_iff, sum_widths]
  rfl

/-- **Address mapping is a bijection between blocks and locations**, in every scheme: a
location is in range, two addresses share it iff they lie in the same block, and every location
in range is that of an address below the size of the memory. -/
theorem address_mapping_bijective :
    (∀ a, (addressMapping g scheme a).InRange g) ∧
      (∀ a b, addressMapping g scheme a = addressMapping g scheme b ↔ g.block a = g.block b) ∧
      ∀ l : Location, l.InRange g →
        ∃ a : BitVec 64, a.toNat < 2 ^ (g.lowWidth + g.blockWidth) ∧
          addressMapping g scheme a = l := by
  refine ⟨addressMapping_inRange g scheme, addressMapping_eq_iff g scheme, fun l hl => ?_⟩
  have hfits : Fits (scheme.parts.map g.width)
      (scheme.parts.map fun part => (l.part part).toNat) := by
    rw [Fits, List.forall₂_map_left_iff, List.forall₂_map_right_iff, List.forall₂_same]
    exact fun part _ => hl part
  have hjoin := join_lt hfits
  rw [sum_widths] at hjoin
  generalize hi : join _ _ = i at hjoin
  have htotal : g.lowWidth + g.blockWidth ≤ 64 := by
    have := g.total_le
    have := g.colLow_le
    unfold Geometry.lowWidth Geometry.blockWidth
    omega
  have hlt : 2 ^ g.lowWidth * i < 2 ^ (g.lowWidth + g.blockWidth) := by
    rw [pow_add]
    exact Nat.mul_lt_mul_of_pos_left hjoin (Nat.two_pow_pos _)
  have hnat : (BitVec.ofNat 64 (2 ^ g.lowWidth * i)).toNat = 2 ^ g.lowWidth * i :=
    BitVec.toNat_ofNat _ _ |>.trans
      (Nat.mod_eq_of_lt (hlt.trans_le (Nat.pow_le_pow_right (by decide) htotal)))
  refine ⟨BitVec.ofNat 64 (2 ^ g.lowWidth * i), by rwa [hnat], ?_⟩
  apply Location.ext_parts scheme
  rw [addressMapping_parts, hnat, Nat.mul_div_cancel_left _ (Nat.two_pow_pos _), ← hi,
    cut_join hfits]

end SpikeSim.Dram
