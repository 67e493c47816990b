/-
# The TLB agrees with the walk

The tags of loads, stores and fetches share one array of data.  The TLB is coherent
when every hit leads to the byte that the walk would lead to now.  A refill keeps
it so, provided that the other kinds of access which are still cached for the page
lead to the same frame: their data are overwritten without their tags.
-/

import SpikeSim.Riscv.CsrEffect
import SpikeSim.Riscv.Paging

namespace SpikeSim.Riscv

variable {β : Type} {P : Platform β}

/-! ## Hits -/

/-- The inline fast path is taken. -/
def TlbHit (u : Mmu) (kind : AccessType) (addr : Reg) : Prop :=
  let vpn := addr >>> pgshift
  u.tlbTag kind (tlbIndex vpn) = vpn ∨
    u.tlbTag kind (tlbIndex vpn) = vpn ||| tlbCheckTriggers

instance (u : Mmu) (kind : AccessType) (addr : Reg) : Decidable (TlbHit u kind addr) :=
  inferInstanceAs (Decidable (_ ∨ _))

/-- The TLB is the same, with the flags that its next tags take. -/
structure SameTlb (u u' : Mmu) : Prop where
  data : u'.tlbData = u.tlbData
  tags : u'.tlbTag = u.tlbTag
  checks : u'.checkTriggers = u.checkTriggers

theorem SameTlb.refl (u : Mmu) : SameTlb u u := ⟨rfl, rfl, rfl⟩

theorem SameTlb.trans {u₁ u₂ u₃ : Mmu} (h : SameTlb u₁ u₂) (h' : SameTlb u₂ u₃) :
    SameTlb u₁ u₃ :=
  ⟨h'.data.trans h.data, h'.tags.trans h.tags, h'.checks.trans h.checks⟩

/-- No tag is that of a page. -/
def Mmu.TlbEmpty (u : Mmu) : Prop := ∀ kind idx, u.tlbTag kind idx = -1

theorem getLsbD_tlbCheckTriggers {i : Nat} (hi : i < 64) :
    (~~~tlbCheckTriggers).getLsbD i = decide (i ≠ 63) := by
  have hall : ∀ j < 64, (~~~tlbCheckTriggers).getLsbD j = decide (j ≠ 63) := by decide
  exact hall i hi

theorem getLsbD_vpn (addr : Reg) {i : Nat} (hi : 52 ≤ i) : (addr >>> pgshift).getLsbD i = false := by
  rw [BitVec.getLsbD_ushiftRight, BitVec.getLsbD_of_ge]
  unfold pgshift
  omega

theorem vpn_and (addr : Reg) : (addr >>> pgshift) &&& ~~~tlbCheckTriggers = addr >>> pgshift := by
  refine BitVec.eq_of_getLsbD_eq fun i hi => ?_
  rw [BitVec.getLsbD_and, getLsbD_tlbCheckTriggers hi]
  by_cases htop : i = 63
  · rw [getLsbD_vpn addr (by omega)]
    rfl
  · simp [htop]

theorem vpn_or_and (addr : Reg) :
    ((addr >>> pgshift) ||| tlbCheckTriggers) &&& ~~~tlbCheckTriggers = addr >>> pgshift := by
  rw [BitVec.and_comm, BitVec.and_or_distrib_left, BitVec.and_comm _ (addr >>> pgshift), vpn_and,
    show ~~~tlbCheckTriggers &&& tlbCheckTriggers = 0 from by decide]
  simp

theorem vpn_ne_empty (addr : Reg) : (-1 : Reg) &&& ~~~tlbCheckTriggers ≠ addr >>> pgshift := by
  intro h
  have hbit := congrArg (fun v => v.getLsbD 52) h
  simp only [getLsbD_vpn addr (Nat.le_refl 52)] at hbit
  revert hbit
  decide

theorem TlbHit.tag_and {u : Mmu} {kind : AccessType} {addr : Reg} (h : TlbHit u kind addr) :
    u.tlbTag kind (tlbIndex (addr >>> pgshift)) &&& ~~~tlbCheckTriggers = addr >>> pgshift := by
  rcases h with h | h
  · rw [h, vpn_and]
  · rw [h, vpn_or_and]

theorem TlbHit.samePage {u : Mmu} {kind : AccessType} {addr addr' : Reg}
    (hpage : SamePage addr addr') : TlbHit u kind addr' ↔ TlbHit u kind addr := by
  unfold TlbHit
  rw [hpage]

theorem not_tlbHit_of_empty {u : Mmu} (h : u.TlbEmpty) (kind : AccessType) (addr : Reg) :
    ¬ TlbHit u kind addr := by
  intro hhit
  have htag := hhit.tag_and
  rw [h] at htag
  exact vpn_ne_empty addr htag

/-! ## Coherence -/

/-- The walk would lead the access to this host address. -/
def Resolves (P : Platform β) (m : Machine β) (kind : AccessType) (addr ptr : Reg) : Prop :=
  ∃ paddr leaf, translation P m.hart m.dram addr kind = some (paddr, leaf) ∧
    P.addrIsMem paddr = true ∧ ptr = P.addrToMem paddr

/-- Every hit leads where the walk would lead. -/
def Coherent (P : Platform β) (m : Machine β) : Prop :=
  ∀ kind addr, TlbHit m.mmu kind addr →
    Resolves P m kind addr (m.mmu.tlbData (tlbIndex (addr >>> pgshift)) + addr)

theorem coherent_of_empty {m : Machine β} (h : m.mmu.TlbEmpty) : Coherent P m :=
  fun kind addr hhit => absurd hhit (not_tlbHit_of_empty h kind addr)

theorem tlbEmpty_flushed (u : Mmu) : u.flushed.TlbEmpty := by
  intro kind idx
  cases kind <;> rfl

/-- A step that keeps the TLB, the view of the hart and the tables. -/
theorem Coherent.frame {m m' : Machine β} (h : Coherent P m) (htlb : SameTlb m.mmu m'.mmu)
    (hview : SameView m.hart m'.hart) (htables : SameTables P m.hart m.dram m'.dram) :
    Coherent P m' := by
  intro kind addr hhit
  have hhit' : TlbHit m.mmu kind addr := by
    unfold TlbHit at hhit ⊢
    rwa [htlb.tags] at hhit
  obtain ⟨paddr, leaf, htr, hmem, hptr⟩ := h kind addr hhit'
  refine ⟨paddr, leaf, ?_, hmem, ?_⟩
  · rw [translation_congr hview htables, htr]
  · rw [htlb.data, hptr]

/-! ## Refilling -/

theorem tlbTag_refilled (u : Mmu) (vaddr paddr : Reg) (type kind : AccessType) :
    (u.refilled P vaddr paddr type).tlbTag kind = refillTag u (vaddr >>> pgshift) type kind := by
  cases kind <;> rfl

theorem SameTlb.refilled {u u' : Mmu} (h : SameTlb u u') (vaddr paddr : Reg)
    (type : AccessType) :
    SameTlb (u.refilled P vaddr paddr type) (u'.refilled P vaddr paddr type) where
  data := by simp only [Mmu.refilled, h.data]
  tags := by
    funext kind
    rw [tlbTag_refilled, tlbTag_refilled]
    simp only [refillTag, h.tags, h.checks]
  checks := h.checks

/-- After a refill a hit is one in another slot that was there before, or one of the
page that was refilled: of the kind that was refilled, or of another that was there. -/
theorem tlbHit_refilled {u : Mmu} {vaddr paddr : Reg} {type kind : AccessType} {addr : Reg}
    (h : TlbHit (u.refilled P vaddr paddr type) kind addr) :
    (tlbIndex (addr >>> pgshift) ≠ tlbIndex (vaddr >>> pgshift) ∧ TlbHit u kind addr) ∨
      (SamePage vaddr addr ∧ (kind = type ∨ TlbHit u kind vaddr)) := by
  by_cases hidx : tlbIndex (addr >>> pgshift) = tlbIndex (vaddr >>> pgshift)
  · right
    have htag := h.tag_and
    rw [tlbTag_refilled, hidx] at htag
    simp only [refillTag, Function.update_self] at htag
    by_cases hkind : kind = type
    · rw [if_pos hkind] at htag
      refine ⟨?_, .inl hkind⟩
      split at htag
      · rw [vpn_or_and] at htag
        exact htag.symm
      · rw [vpn_and] at htag
        exact htag.symm
    · rw [if_neg hkind] at htag
      split at htag
      · exact absurd htag (vpn_ne_empty addr)
      · rename_i hkept
        have hpage : SamePage vaddr addr := htag.symm.trans (not_not.mp hkept)
        refine ⟨hpage, .inr ?_⟩
        rw [← TlbHit.samePage hpage]
        have hsame : (u.refilled P vaddr paddr type).tlbTag kind (tlbIndex (addr >>> pgshift)) =
            u.tlbTag kind (tlbIndex (addr >>> pgshift)) := by
          rw [tlbTag_refilled, hidx]
          simp only [refillTag, Function.update_self, if_neg hkind, if_neg hkept]
        simpa only [TlbHit, hsame] using h
  · left
    refine ⟨hidx, ?_⟩
    unfold TlbHit at h ⊢
    rw [tlbTag_refilled] at h
    simpa [refillTag, Function.update_of_ne hidx] using h

theorem addrToMem_add (paddr d : Reg) : P.addrToMem (paddr + d) = P.addrToMem paddr + d := by
  unfold Platform.addrToMem
  ring

/-- What a refill of a page needs: the other kinds of access that are cached for the
page lead to the same address. -/
def RefillAgrees (P : Platform β) (m : Machine β) (type : AccessType) (vaddr : Reg) : Prop :=
  ∀ kind, kind ≠ type → TlbHit m.mmu kind vaddr →
    (translation P m.hart m.dram vaddr kind).map Prod.fst =
      (translation P m.hart m.dram vaddr type).map Prod.fst

/-- **A refill keeps coherence.** -/
theorem Coherent.refill {m : Machine β} (h : Coherent P m) {type : AccessType}
    {vaddr paddr : Reg} {leaf : Option Reg}
    (htr : translation P m.hart m.dram vaddr type = some (paddr, leaf))
    (hmem : P.addrIsMem paddr = true) (hagree : RefillAgrees P m type vaddr) :
    Coherent P { m with mmu := m.mmu.refilled P vaddr paddr type } := by
  intro kind addr hhit
  rcases tlbHit_refilled hhit with ⟨hidx, hold⟩ | ⟨hpage, hkind⟩
  · have hdata : (m.mmu.refilled P vaddr paddr type).tlbData (tlbIndex (addr >>> pgshift)) =
        m.mmu.tlbData (tlbIndex (addr >>> pgshift)) := Function.update_of_ne hidx ..
    simpa only [Resolves, hdata] using h kind addr hold
  · -- The slot leads to the frame of the refill; so must the access.
    have hframe : ∃ leaf', translation P m.hart m.dram vaddr kind = some (paddr, leaf') := by
      rcases hkind with rfl | hold
      · exact ⟨leaf, htr⟩
      · by_cases hsame : kind = type
        · exact ⟨leaf, hsame ▸ htr⟩
        · obtain ⟨paddr', leaf', htr', -, -⟩ := h kind vaddr hold
          have heq := hagree kind hsame hold
          rw [htr, htr'] at heq
          cases heq
          exact ⟨leaf', htr'⟩
    obtain ⟨leaf', htr'⟩ := hframe
    obtain ⟨htr'', hmem''⟩ := translation_samePage htr' hmem hpage
    refine ⟨_, leaf', htr'', hmem'', ?_⟩
    have hdata : (m.mmu.refilled P vaddr paddr type).tlbData (tlbIndex (addr >>> pgshift)) =
        P.addrToMem paddr - vaddr := by
      rw [hpage]
      exact Function.update_self ..
    rw [hdata, addrToMem_add]
    ring

end SpikeSim.Riscv
