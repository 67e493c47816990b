/-
# What a translation does

`translate` either aborts, or returns a physical address after it has marked the
leaf entry of its walk.  The function `translation` says which, as a function of
the hart and the memory alone, and `translate_eq` that `translate` follows it.
Marking an entry sets bits of a single byte.
-/

import SpikeSim.Lib.Effect
import SpikeSim.Riscv.Mmu

namespace SpikeSim.Riscv

variable {β : Type} (P : Platform β)

/-! ## Bytes of host memory -/

theorem add_ofNat_succ (ptr : Reg) (j : Nat) :
    ptr + BitVec.ofNat 64 (j + 1) = ptr + 1 + BitVec.ofNat 64 j := by
  rw [BitVec.ofNat_add, BitVec.add_assoc, BitVec.add_comm (BitVec.ofNat 64 j)]
  rfl

/-- The bytes that a read is put together from. -/
theorem readLE_byte (dram : Reg → BitVec 8) (ptr : Reg) {n j : Nat} (hj : j < n) (hn : n ≤ 8) :
    (readLE dram ptr n >>> (8 * j)).setWidth 8 = dram (ptr + BitVec.ofNat 64 j) := by
  induction n generalizing ptr j with
  | zero => omega
  | succ n ih =>
      cases j with
      | zero =>
          ext i hi
          simp [readLE]
      | succ j =>
          rw [add_ofNat_succ, ← ih (ptr + 1) (j := j) (by omega) (by omega)]
          ext i hi
          simp [readLE, show 8 * (j + 1) + i = 8 * j + i + 8 by omega]
          omega

theorem writeLE_apply (dram : Reg → BitVec 8) (ptr v p : Reg) {n : Nat} (hn : n ≤ 8) :
    writeLE dram ptr n v p =
      if (p - ptr).toNat < n then (v >>> (8 * (p - ptr).toNat)).setWidth 8 else dram p := by
  induction n generalizing dram ptr v with
  | zero => simp [writeLE]
  | succ n ih =>
      rw [writeLE, ih _ _ _ (by omega)]
      by_cases hp : p = ptr
      · subst hp
        have hwrap : (p - (p + 1)).toNat = 2 ^ 64 - 1 := by
          rw [show p - (p + 1) = -1 by ring]
          decide
        simp only [hwrap, BitVec.sub_self]
        rw [if_neg (by omega)]
        simp
      · have hnext : (p - ptr).toNat = (p - (ptr + 1)).toNat + 1 := by
          have hne : (p - ptr).toNat ≠ 0 := by
            intro hzero
            exact hp (by bv_omega)
          bv_omega
        rw [hnext, Function.update_of_ne hp]
        simp only [Nat.add_lt_add_iff_right, ← BitVec.shiftRight_add]
        rw [show 8 + 8 * (p - (ptr + 1)).toNat = 8 * ((p - (ptr + 1)).toNat + 1) by omega]

/-- Only the bytes that are read matter. -/
theorem readLE_congr {dram dram' : Reg → BitVec 8} {ptr : Reg} {n : Nat}
    (h : ∀ j < n, dram' (ptr + BitVec.ofNat 64 j) = dram (ptr + BitVec.ofNat 64 j)) :
    readLE dram' ptr n = readLE dram ptr n := by
  induction n generalizing ptr with
  | zero => rfl
  | succ n ih =>
      have hfirst : dram' ptr = dram ptr := by simpa using h 0 (by omega)
      have hrest : readLE dram' (ptr + 1) n = readLE dram (ptr + 1) n := by
        apply ih
        intro j hj
        rw [← add_ofNat_succ]
        exact h (j + 1) (by omega)
      simp only [readLE, hfirst, hrest]

/-! ## The closed form -/

/-- The result of `translate`, with the leaf entry that is marked if there was a
walk; `none` if it aborts. -/
def translation (h : Hart) (dram : Reg → BitVec 8) (addr : Reg) (type : AccessType) :
    Option (Reg × Option Reg) :=
  let mode := translationMode h type
  if mode = prvM then some (addr &&& xlenMask h.xlen, none)
  else
    match vmShape h.mstatus with
    | none => none
    | some shape =>
      match walkLeaf P h dram shape addr type mode with
      | none => some (-1, none)
      | some (ppte, page) => some (page ||| pageOffset addr, some ppte)

/-- The memory after the leaf entry, if any, is marked. -/
def markLeaf (dram : Reg → BitVec 8) (type : AccessType) : Option Reg → Reg → BitVec 8
  | none => dram
  | some ppte => markAccessed dram ppte type

theorem neg_one_or (x : Reg) : (-1 : Reg) ||| x = -1 := by
  change BitVec.allOnes 64 ||| x = BitVec.allOnes 64
  exact BitVec.allOnes_or

theorem translate_eq (addr : Reg) (type : AccessType) (m : Machine β) :
    translate P addr type m =
      match translation P m.hart m.dram addr type with
      | none => .error .abort m
      | some (paddr, leaf) => .ok paddr { m with dram := markLeaf m.dram type leaf } := by
  simp only [translate, translation, getHart, walk, run_bind, run_get, run_pure]
  by_cases hmode : translationMode m.hart type = prvM
  · simp [hmode, markLeaf]
  · simp only [if_neg hmode, run_bind, run_get]
    cases hshape : vmShape m.hart.mstatus with
    | none => simp
    | some shape =>
        simp only
        rcases hwalk : walkLeaf P m.hart m.dram shape addr type
          (translationMode m.hart type) with _ | ⟨ppte, page⟩
        · simp only [run_pure, markLeaf, neg_one_or]
        · simp [run_bind, markLeaf]

theorem translate_ok {addr : Reg} {type : AccessType} {m m' : Machine β} {paddr : Reg}
    (h : translate P addr type m = .ok paddr m') :
    ∃ leaf, translation P m.hart m.dram addr type = some (paddr, leaf) ∧
      m' = { m with dram := markLeaf m.dram type leaf } := by
  rw [translate_eq] at h
  split at h
  · cases h
  · rename_i leaf htr
    cases h
    exact ⟨leaf, htr, rfl⟩

theorem translate_error {addr : Reg} {type : AccessType} {m m' : Machine β} {e : Exn}
    (h : translate P addr type m = .error e m') :
    translation P m.hart m.dram addr type = none ∧ e = .abort ∧ m' = m := by
  rw [translate_eq] at h
  split at h
  · rename_i htr
    cases h
    exact ⟨htr, rfl, rfl⟩
  · cases h

/-! ## Refilling the TLB -/

/-- The caches after `refill_tlb`. -/
def Mmu.refilled (P : Platform β) (u : Mmu) (vaddr paddr : Reg) (type : AccessType) : Mmu :=
  let vpn := vaddr >>> pgshift
  { u with
    tlbInsnTag := refillTag u vpn type .fetch
    tlbLoadTag := refillTag u vpn type .load
    tlbStoreTag := refillTag u vpn type .store
    tlbData := Function.update u.tlbData (tlbIndex vpn) (P.addrToMem paddr - vaddr) }

@[simp]
theorem run_refillTlb (vaddr paddr : Reg) (type : AccessType) (m : Machine β) :
    refillTlb P vaddr paddr type m =
      .ok () { m with mmu := m.mmu.refilled P vaddr paddr type } := rfl

/-! ## Marking an entry -/

/-- The low byte of the bits that a walk sets. -/
def accessByte (type : AccessType) : BitVec 8 := (pteAccessBits type).setWidth 8

/-- Only the first of the four bytes written changes. -/
theorem markAccessed_eq (dram : Reg → BitVec 8) (ppte : Reg) (type : AccessType) :
    markAccessed dram ppte type =
      Function.update dram ppte (dram ppte ||| accessByte type) := by
  have hbits : ∀ j < 4, (pteAccessBits type >>> (8 * j)).setWidth 8 =
      if j = 0 then accessByte type else 0 := by
    cases type <;> decide
  funext ptr
  rw [markAccessed, writeLE_apply _ _ _ _ (by omega)]
  split
  · rename_i hoffset
    rw [BitVec.ushiftRight_or_distrib, BitVec.setWidth_or, readLE_byte _ _ hoffset (by omega),
      hbits _ hoffset]
    have hptr : ppte + BitVec.ofNat 64 (ptr - ppte).toNat = ptr := by
      rw [BitVec.ofNat_toNat, BitVec.setWidth_eq]
      ring
    rw [hptr]
    by_cases heq : ptr = ppte
    · subst heq
      simp
    · rw [Function.update_of_ne heq, if_neg (by bv_omega)]
      simp
  · rename_i hoffset
    rw [Function.update_of_ne]
    rintro rfl
    simp at hoffset

end SpikeSim.Riscv
