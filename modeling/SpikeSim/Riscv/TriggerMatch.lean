/-
# What a trigger matches

The individual test of a trigger, the search that `trigger_match` makes with it, and
the search that chains of triggers ask for.  The loop never clears `chain_ok`, so it
stops at the first unchained trigger that matches by itself.

The second half is about naturally aligned regions: the mask of `MATCH_NAPOT` is
computed from the number of trailing ones of `tdata2`, in `int`.
-/

import SpikeSim.Lib.LeastIndex
import SpikeSim.Riscv.Operands
import SpikeSim.Riscv.Csr

namespace SpikeSim.Riscv

/-! ## The search -/

section Chains

variable (h : Hart) (operation : TriggerOperation) (address data : Reg)

/-- The value that a trigger compares with its `tdata2`. -/
def triggerValue (i : Fin 4) : Reg :=
  let value := if (h.mcontrol i).select then data else address
  if h.xlen = .rv32 then value &&& 0xffffffff else value

/-- The trigger matches by itself: operation, privilege and value. -/
def triggerMatches (i : Fin 4) : Bool :=
  triggerEnabled h operation (h.mcontrol i) &&
    triggerCompare h.xlen (h.mcontrol i).matchKind (triggerValue h address data i) (h.tdata2 i)

/-- The trigger that the loop may return. -/
def triggerStops (i : Fin 4) : Bool :=
  triggerMatches h operation address data i && !(h.mcontrol i).chain

/-- All triggers of the chain that ends right before `i` match. -/
def ChainMatches (i : Fin 4) : Prop :=
  ∀ j < i, (∀ k, j ≤ k → k < i → (h.mcontrol k).chain = true) →
    triggerMatches h operation address data j = true

/-- The trigger matches with its whole chain. -/
def ChainFires (i : Fin 4) : Prop :=
  (h.mcontrol i).chain = false ∧ triggerMatches h operation address data i = true ∧
    ChainMatches h operation address data i

instance (i : Fin 4) : Decidable (ChainMatches h operation address data i) :=
  inferInstanceAs (Decidable (∀ _, _ → _ → _))

/-- `chain_ok` stays set, so the loop is a search. -/
theorem triggerMatchFrom_eq_find? (is : List (Fin 4)) :
    triggerMatchFrom h operation address data true is =
      is.find? (triggerStops h operation address data) := by
  induction is with
  | nil => rfl
  | cons i rest ih =>
      rw [List.find?_cons]
      simp only [triggerMatchFrom, triggerStops, triggerMatches, triggerValue, ih, Bool.not_true,
        Bool.false_eq_true, if_false]
      cases triggerEnabled h operation (h.mcontrol i) with
      | false => simp
      | true =>
          cases triggerCompare h.xlen (h.mcontrol i).matchKind
              (if h.xlen = .rv32 then
                (if (h.mcontrol i).select then data else address) &&& 0xffffffff
              else if (h.mcontrol i).select then data else address) (h.tdata2 i) with
          | false => simp
          | true => cases hchain : (h.mcontrol i).chain <;> simp

theorem triggerMatch_eq_find? (hrun : h.inDebugMode = false) :
    triggerMatch h operation address data =
      [0, 1, 2, 3].find? (triggerStops h operation address data) := by
  rw [triggerMatch, hrun, if_neg Bool.false_ne_true, triggerMatchFrom_eq_find?]

/-- `trigger_match` returns the least trigger that stops the loop. -/
theorem triggerMatch_leastOf (hrun : h.inDebugMode = false) :
    LeastOf (fun i => triggerStops h operation address data i = true)
      (triggerMatch h operation address data) := by
  rw [triggerMatch_eq_find? h operation address data hrun]
  exact leastOf_find? _ (by decide) (by decide)

/-- **`trigger_match` finds the least trigger whose chain matches exactly when the
first unchained trigger that matches by itself has a chain that matches.** -/
theorem triggerMatch_chain_iff (hrun : h.inDebugMode = false) :
    LeastOf (ChainFires h operation address data) (triggerMatch h operation address data) ↔
      ∀ i, (h.mcontrol i).chain = false → triggerMatches h operation address data i = true →
        (∀ j < i, (h.mcontrol j).chain = false →
          triggerMatches h operation address data j = false) →
        ChainMatches h operation address data i := by
  have hstops (i : Fin 4) : triggerStops h operation address data i = true ↔
      triggerMatches h operation address data i = true ∧ (h.mcontrol i).chain = false := by
    rw [triggerStops, Bool.and_eq_true, Bool.not_eq_true']
  have hweaker (i : Fin 4) (hi : ChainFires h operation address data i) :
      triggerStops h operation address data i = true :=
    (hstops i).mpr ⟨hi.2.1, hi.1⟩
  rw [(triggerMatch_leastOf h operation address data hrun).stronger_iff hweaker]
  constructor
  · intro hall i hchain hmatch hfirst
    refine (hall i ((hstops i).mpr ⟨hmatch, hchain⟩) fun j hj hstop => ?_).2.2
    obtain ⟨hmatch', hchain'⟩ := (hstops j).mp hstop
    rw [hfirst j hj hchain'] at hmatch'
    cases hmatch'
  · intro hall i hstop hfirst
    obtain ⟨hmatch, hchain⟩ := (hstops i).mp hstop
    refine ⟨hchain, hmatch, hall i hchain hmatch fun j hj hchain' => ?_⟩
    rw [← Bool.not_eq_true]
    exact fun hmatch' => hfirst j hj ((hstops j).mpr ⟨hmatch', hchain'⟩)

end Chains

/-- A machine-mode trigger on loads whose address is `tdata2`. -/
def loadTrigger (chain : Bool) : Mcontrol := { Mcontrol.reset with chain, m := true, load := true }

/-- Trigger 0 is chained to trigger 1, and the two watch different addresses. -/
def chainedPair : Hart :=
  { Hart.reset .rv64 0 false with
    mcontrol := Function.update (fun _ => loadTrigger false) 0 (loadTrigger true)
    tdata2 := fun i => 0x80000000 + 8 * BitVec.ofNat 64 i.val }

/-- The first trigger of the chain does not match, and the second one fires. -/
theorem chain_not_awaited :
    triggerMatch chainedPair .load 0x80000008 0 = some 1 ∧
      triggerMatches chainedPair .load 0x80000008 0 0 = false ∧
      ¬ LeastOf (ChainFires chainedPair .load 0x80000008 0)
        (triggerMatch chainedPair .load 0x80000008 0) := by
  have hmatch : triggerMatch chainedPair .load 0x80000008 0 = some 1 := by decide
  refine ⟨hmatch, by decide, ?_⟩
  rw [hmatch]
  rintro ⟨⟨-, -, hchain⟩, -⟩
  exact absurd hchain (by decide)

/-- An unchained trigger of the pair fires by itself. -/
theorem chain_of_one_fires :
    LeastOf (ChainFires chainedPair .load 0x80000010 0)
      (triggerMatch chainedPair .load 0x80000010 0) :=
  (triggerMatch_chain_iff chainedPair .load 0x80000010 0 (by decide)).mpr (by decide)

/-! ## Naturally aligned regions -/

/-- The number of ones below the lowest zero. -/
def TrailingOnes (v : Reg) (k : Nat) : Prop := (∀ j < k, v.getLsbD j = true) ∧ v.getLsbD k = false

/-- The value lies in the region of `2 ^ (k + 1)` bytes around `tdata2`: the two agree
above bit `k`. -/
def InNapotRegion (k : Nat) (tdata2 value : Reg) : Prop :=
  ∀ j < 64, k < j → value.getLsbD j = tdata2.getLsbD j

instance (v : Reg) (k : Nat) : Decidable (TrailingOnes v k) :=
  inferInstanceAs (Decidable (_ ∧ _))

instance (k : Nat) (tdata2 value : Reg) : Decidable (InNapotRegion k tdata2 value) :=
  inferInstanceAs (Decidable (∀ j < 64, _ → _))

theorem and_one_eq_one_iff (v : Reg) : v &&& 1 = 1 ↔ v.getLsbD 0 = true := by
  rw [show (1 : Reg) = BitVec.twoPow 64 0 from rfl, BitVec.and_twoPow]
  cases v.getLsbD 0 with
  | false => decide
  | true => simp

theorem TrailingOnes.ushiftRight {v : Reg} {k : Nat} (h : TrailingOnes v (k + 1)) :
    TrailingOnes (v >>> 1) k := by
  constructor
  · intro j hj
    rw [BitVec.getLsbD_ushiftRight]
    exact h.1 (1 + j) (by omega)
  · rw [BitVec.getLsbD_ushiftRight, Nat.add_comm]
    exact h.2

theorem cto_eq_of_trailingOnes {v : Reg} {k n : Nat} (hk : k < n) (h : TrailingOnes v k) :
    cto v n = k := by
  induction n generalizing v k with
  | zero => omega
  | succ n ih =>
      rw [cto]
      cases k with
      | zero =>
          apply if_neg
          rw [and_one_eq_one_iff, h.2]
          exact Bool.false_ne_true
      | succ k =>
          have hone := (and_one_eq_one_iff v).mpr (h.1 0 (Nat.succ_pos k))
          rw [if_pos hone, ih (Nat.lt_of_succ_lt_succ hk) h.ushiftRight]

/-- The mask of the code, sign-extended from `int`, clears the low bits. -/
theorem napotMask_eq (c : Nat) (hc : c < 32) :
    (~~~((1#32 <<< c) - 1)).signExtend 64 = ~~~((1 <<< c : Reg) - 1) := by
  revert c
  decide

theorem zextXlen_eq (xlen : Xlen) (v : Reg) :
    zextXlen xlen v = if xlen = .rv32 then v &&& 0xffffffff else v := by
  refine BitVec.eq_of_getLsbD_eq fun i hi => ?_
  cases xlen with
  | rv64 => simp [zextXlen, Xlen.bits]
  | rv32 =>
      have hmask := getLsbD_mask 32 i (by omega)
      rw [show ((1 <<< 32 : Reg) - 1) = 0xffffffff from rfl] at hmask
      rw [if_pos rfl, BitVec.getLsbD_and, hmask, zextXlen, Xlen.bits, BitVec.getLsbD_ushiftRight,
        BitVec.getLsbD_shiftLeft]
      by_cases hlow : i < 32
      · simp [hlow, show 32 + i < 64 by omega]
      · simp [hlow, show ¬ 32 + i < 64 by omega]

/-- What the comparison of `MATCH_NAPOT` looks at: all bits from `k % 32` on. -/
theorem triggerCompare_napot (xlen : Xlen) (value tdata2 : Reg) {k : Nat} (hk : k < 64)
    (hones : TrailingOnes tdata2 k) :
    triggerCompare xlen 1 value tdata2 = true ↔
      ∀ j < 64, k % 32 ≤ j → value.getLsbD j = tdata2.getLsbD j := by
  have hc : k % 32 < 32 := Nat.mod_lt k (by omega)
  rw [triggerCompare, if_neg (by decide), if_pos rfl, cto_eq_of_trailingOnes hk hones,
    napotMask_eq _ hc, beq_iff_eq]
  change AgreeOn _ _ _ ↔ _
  rw [agreeOn_iff]
  refine forall₂_congr fun j hj => ?_
  rw [BitVec.getLsbD_not, getLsbD_mask _ _ (by omega)]
  simp [hj]

/-- **An address trigger on a region matches exactly the region's addresses, except for
those in the region that differ from `tdata2` between bits `k % 32` and `k`.** -/
theorem triggerMatches_napot_iff (h : Hart) (operation : TriggerOperation) (address data : Reg)
    (i : Fin 4) {k : Nat} (hkind : (h.mcontrol i).matchKind = 1)
    (hselect : (h.mcontrol i).select = false)
    (henabled : triggerEnabled h operation (h.mcontrol i) = true) (hk : k < h.xlen.bits)
    (hones : TrailingOnes (h.tdata2 i) k) :
    (triggerMatches h operation address data i = true ↔
        InNapotRegion k (h.tdata2 i) (zextXlen h.xlen address)) ↔
      InNapotRegion k (h.tdata2 i) (zextXlen h.xlen address) →
        ∀ j, k % 32 ≤ j → j ≤ k →
          (zextXlen h.xlen address).getLsbD j = (h.tdata2 i).getLsbD j := by
  have hk64 : k < 64 := by
    cases hxlen : h.xlen with
    | rv32 =>
        rw [hxlen, Xlen.bits] at hk
        omega
    | rv64 =>
        rw [hxlen, Xlen.bits] at hk
        exact hk
  have hvalue : triggerValue h address data i = zextXlen h.xlen address := by
    rw [zextXlen_eq, triggerValue, hselect]
    rfl
  rw [triggerMatches, henabled, Bool.true_and, hkind, hvalue, triggerCompare_napot _ _ _ hk64 hones]
  constructor
  · intro hiff hin j hlow hhigh
    exact hiff.mpr hin j (by omega) hlow
  · intro hmiddle
    constructor
    · intro hagree j hj habove
      exact hagree j hj ((Nat.mod_le k 32).trans habove.le)
    · intro hin j hj hlow
      rcases Nat.lt_or_ge k j with habove | hbelow
      · exact hin j hj habove
      · exact hmiddle hin j hlow hbelow

/-- A hart with one trigger on the loads of a region. -/
def regionTrigger (tdata2 : Reg) : Hart :=
  { Hart.reset .rv64 0 false with
    mcontrol := fun _ => { loadTrigger false with matchKind := 1 }
    tdata2 := fun _ => tdata2 }

/-- The upper half of an eight-kilobyte region, and most of a region of `2 ^ 41` bytes, are
missed. -/
theorem napot_upper_half_missed :
    TrailingOnes 0x80000fff 12 ∧ InNapotRegion 12 0x80000fff 0x80001123 ∧
      triggerMatches (regionTrigger 0x80000fff) .load 0x80001123 0 0 = false ∧
      TrailingOnes 0xffffffffff 40 ∧ InNapotRegion 40 0xffffffffff 0x80000000 ∧
      triggerMatches (regionTrigger 0xffffffffff) .load 0x80000000 0 0 = false := by
  decide

/-- The lower half of the region is matched. -/
theorem napot_lower_half_matched :
    triggerMatches (regionTrigger 0x80000fff) .load 0x80000123 0 0 = true ↔
      InNapotRegion 12 0x80000fff 0x80000123 := by
  have hk : 12 < (regionTrigger 0x80000fff).xlen.bits := by decide
  refine (triggerMatches_napot_iff (regionTrigger 0x80000fff) .load 0x80000123 0 0 rfl rfl
    (by decide) hk (by decide)).mpr fun _ j hlow hhigh => ?_
  obtain rfl : j = 12 := by omega
  decide

end SpikeSim.Riscv
