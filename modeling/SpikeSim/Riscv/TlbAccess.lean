/-
# Accesses and the TLB

What a load, a store or a fetch does to the TLB and to the memory, however it ends:
it stops before the walk, hits, or walks and then fails, is traced, or refills.
-/

import SpikeSim.Riscv.Access
import SpikeSim.Riscv.Tlb

namespace SpikeSim.Riscv

variable {β : Type} {P : Platform β}

/-- The ways an access can go.  `write` is what it does to the memory at the host
address it resolves to. -/
inductive AccessStep (P : Platform β) (type : AccessType) (addr : Reg)
    (write : (Reg → BitVec 8) → Reg → Reg → BitVec 8) (m m' : Machine β) : Prop
  /-- It ends before the walk. -/
  | idle (hview : SameView m.hart m'.hart) (htlb : SameTlb m.mmu m'.mmu)
      (hdram : m'.dram = m.dram)
  | hit (hview : SameView m.hart m'.hart) (hhit : TlbHit m.mmu type addr)
      (htlb : SameTlb m.mmu m'.mmu)
      (hdram : m'.dram = write m.dram (m.mmu.tlbData (tlbIndex (addr >>> pgshift)) + addr))
  /-- It walks, and then faults, reaches a device or stops for a trigger. -/
  | walked {paddr : Reg} {leaf : Option Reg} (hview : SameView m.hart m'.hart)
      (htr : translation P m.hart m.dram addr type = some (paddr, leaf))
      (htlb : SameTlb m.mmu m'.mmu) (hdram : m'.dram = markLeaf m.dram type leaf)
  /-- It reaches memory, with or without a refill. -/
  | memory {paddr : Reg} {leaf : Option Reg} (hview : SameView m.hart m'.hart)
      (hmiss : ¬ TlbHit m.mmu type addr)
      (htr : translation P m.hart m.dram addr type = some (paddr, leaf))
      (hmem : P.addrIsMem paddr = true)
      (htlb : SameTlb m.mmu m'.mmu ∨ SameTlb (m.mmu.refilled P addr paddr type) m'.mmu)
      (hdram : m'.dram = write (markLeaf m.dram type leaf) (P.addrToMem paddr))

section Steps

theorem SameView.refl (h : Hart) : SameView h h := ⟨rfl, rfl, rfl, rfl, .refl ..⟩

theorem SameView.trans {h₁ h₂ h₃ : Hart} (h : SameView h₁ h₂) (h' : SameView h₂ h₃) :
    SameView h₁ h₃ :=
  ⟨h'.prv.trans h.prv, h'.xlen.trans h.xlen, h'.sptbr.trans h.sptbr, h'.debug.trans h.debug,
    h'.mstatus.trans h.mstatus⟩

/-- Only `matched_trigger` may differ. -/
structure OnlyTrigger (m m' : Machine β) : Prop where
  hart : m'.hart = m.hart
  tlb : SameTlb m.mmu m'.mmu
  dram : m'.dram = m.dram

instance : Std.Refl (OnlyTrigger (β := β)) := ⟨fun _ => ⟨rfl, .refl _, rfl⟩⟩

instance : IsTrans (Machine β) OnlyTrigger :=
  ⟨fun _ _ _ hab hbc =>
    ⟨hbc.hart.trans hab.hart, hab.tlb.trans hbc.tlb, hbc.dram.trans hab.dram⟩⟩

theorem checkTrigger_onlyTrigger (operation : TriggerOperation) (address data : Reg) :
    Keeps OnlyTrigger (checkTrigger operation address data : M β Unit) := by
  refine .bind .get fun m => ?_
  split
  · split
    · exact .pure _
    · refine .ite (.bind (.modify fun m => ⟨rfl, ⟨rfl, ?_, ?_⟩, rfl⟩) fun _ => .throw _) (.throw _)
      all_goals
        funext kind
        cases kind <;> rfl
  · exact .pure _

theorem modifyDev_match_onlyTrigger {α : Type} (dev : β) (data : Option Reg) (e : Exn)
    (f : Reg → α) :
    Keeps OnlyTrigger (do
      modify fun m => { m with dev := dev }
      match data with
      | none => throw e
      | some data => pure (f data) : M β α) := by
  refine .bind (.modify fun m => ⟨rfl, .refl _, rfl⟩) fun _ => ?_
  cases data with
  | none => exact .throw _
  | some data => exact .pure _

theorem loadSlowPath_step {addr : Reg} {len : Nat} {m m' : Machine β}
    (hmiss : ¬ TlbHit m.mmu .load addr) (h : Ends (loadSlowPath P addr len) m m') :
    AccessStep P .load addr (fun dram _ => dram) m m' := by
  rcases h.bind with ⟨e, herr⟩ | ⟨paddr, mid, hok, h⟩
  · obtain ⟨-, -, rfl⟩ := translate_error P herr
    exact .idle (.refl _) (.refl _) rfl
  obtain ⟨leaf, htr, rfl⟩ := translate_ok P hok
  have hcheck (data : Reg) := Keeps.bind (checkTrigger_onlyTrigger .load addr data)
    (fun _ => Keeps.pure (R := OnlyTrigger (β := β)) data)
  rcases Ends.bind (x := get) h with ⟨e, herr⟩ | ⟨_, _, hget, h⟩
  · cases herr
  cases hget
  by_cases hmem : P.addrIsMem paddr = true
  · simp only [hmem, if_true] at h
    by_cases htraced : P.interested .load = true
    · simp only [htraced, if_true] at h
      have hrest := (hcheck _).ends h
      exact .memory (hrest.hart ▸ .refl _) hmiss htr hmem (.inl hrest.tlb) hrest.dram
    · simp only [htraced] at h
      have hrest := (hcheck _).ends h
      exact .memory (hrest.hart ▸ .refl _) hmiss htr hmem (.inr hrest.tlb) hrest.dram
  · simp only [hmem] at h
    have hrest := (Keeps.bind (R := OnlyTrigger) (modifyDev_match_onlyTrigger ..) hcheck).ends h
    exact .walked (hrest.hart ▸ .refl _) htr hrest.tlb hrest.dram

theorem load_step {ty : MemType} {addr : Reg} {m m' : Machine β}
    (h : Ends (load P ty addr) m m') : AccessStep P .load addr (fun dram _ => dram) m m' := by
  unfold load at h
  by_cases halign : misaligned addr ty.bytes = true
  · simp only [halign, if_true] at h
    obtain rfl := Ends.of_throw_bind h
    exact .idle (.refl _) (.refl _) rfl
  · simp only [halign] at h
    have h := Ends.of_get_bind h
    by_cases htag : m.mmu.tlbLoadTag (tlbIndex (addr >>> pgshift)) = addr >>> pgshift
    · simp only [htag, if_true] at h
      obtain rfl := h.of_pure
      exact .hit (.refl _) (.inl htag) (.refl _) rfl
    · simp only [htag, if_false] at h
      by_cases htrigger : m.mmu.tlbLoadTag (tlbIndex (addr >>> pgshift)) =
          (addr >>> pgshift) ||| tlbCheckTriggers
      · simp only [htrigger, if_true] at h
        have hcheck := (checkTrigger_onlyTrigger ..).ends h.of_bind_pure
        exact .hit (hcheck.hart ▸ .refl _) (.inr htrigger) hcheck.tlb hcheck.dram
      · simp only [htrigger, if_false] at h
        exact loadSlowPath_step (not_or.mpr ⟨htag, htrigger⟩) h.of_bind_pure

/-! ## Fetches -/

theorem fetchSlowPath_step {addr : Reg} {m m' : Machine β}
    (hmiss : ¬ TlbHit m.mmu .fetch addr) (h : Ends (fetchSlowPath P addr) m m') :
    AccessStep P .fetch addr (fun dram _ => dram) m m' := by
  rcases h.bind with ⟨e, herr⟩ | ⟨paddr, mid, hok, h⟩
  · obtain ⟨-, -, rfl⟩ := translate_error P herr
    exact .idle (.refl _) (.refl _) rfl
  obtain ⟨leaf, htr, rfl⟩ := translate_ok P hok
  by_cases hfault : paddr = -1 ∧ addr ≠ -1
  · simp only [if_pos hfault] at h
    obtain rfl := Ends.of_throw_bind h
    exact .walked (.refl _) htr (.refl _) rfl
  simp only [if_neg hfault] at h
  have h := Ends.of_get_bind h
  by_cases hmem : P.addrIsMem paddr = true
  · simp only [hmem, if_true] at h
    obtain rfl := Ends.of_pure h
    exact .memory (.refl _) hmiss htr hmem (.inr (.refl _)) rfl
  · simp only [hmem] at h
    have hrest := (modifyDev_match_onlyTrigger ..).ends h
    exact .walked (hrest.hart ▸ .refl _) htr hrest.tlb hrest.dram

theorem translateInsnAddr_step {addr : Reg} {m m' : Machine β}
    (h : Ends (translateInsnAddr P addr) m m') :
    AccessStep P .fetch addr (fun dram _ => dram) m m' := by
  have h := Ends.of_get_bind h
  by_cases htag : m.mmu.tlbInsnTag (tlbIndex (addr >>> pgshift)) = addr >>> pgshift
  · simp only [htag, if_true] at h
    obtain rfl := h.of_pure
    exact .hit (.refl _) (.inl htag) (.refl _) rfl
  · simp only [htag, if_false] at h
    by_cases htrigger : m.mmu.tlbInsnTag (tlbIndex (addr >>> pgshift)) =
        (addr >>> pgshift) ||| tlbCheckTriggers
    · simp only [htrigger, if_true] at h
      have hsame : m' = m := by
        split at h
        · exact h.of_throw
        · exact h.of_pure
      subst hsame
      exact .hit (.refl _) (.inr htrigger) (.refl _) rfl
    · simp only [htrigger, if_false] at h
      exact fetchSlowPath_step (not_or.mpr ⟨htag, htrigger⟩) h

/-! ## Stores -/

theorem storeAt_step {addr paddr : Reg} {len : Nat} {data : Reg} {m mid m' : Machine β}
    {leaf : Option Reg} (hmiss : ¬ TlbHit m.mmu .store addr)
    (htr : translation P m.hart m.dram addr .store = some (paddr, leaf))
    (hmid : OnlyTrigger { m with dram := markLeaf m.dram .store leaf } mid)
    (h : Ends (storeAt P addr paddr len data) mid m') :
    AccessStep P .store addr (fun dram ptr => writeLE dram ptr len data) m m' := by
  have h := Ends.of_get_bind h
  have hview : SameView m.hart mid.hart := hmid.hart ▸ .refl _
  by_cases hmem : P.addrIsMem paddr = true
  · simp only [hmem, if_true] at h
    have hdram : writeLE mid.dram (P.addrToMem paddr) len data =
        writeLE (markLeaf m.dram .store leaf) (P.addrToMem paddr) len data := by
      rw [hmid.dram]
    have h := Ends.of_modify_bind h
    split at h
    · obtain rfl := Ends.of_modify h
      exact .memory hview hmiss htr hmem (.inl hmid.tlb) hdram
    · obtain rfl := Ends.of_modify h
      exact .memory hview hmiss htr hmem (.inr (hmid.tlb.refilled ..)) hdram
  · simp only [hmem] at h
    have h := Ends.of_modify_bind h
    have hsame : m' = deviceStore P paddr len data mid := by
      change Ends (if _ then _ else _) _ _ at h
      split at h
      · exact h.of_throw
      · exact h.of_pure
    subst hsame
    -- A device may raise an interrupt, which a translation does not see.
    have hmip : SameView mid.hart (deviceStore P paddr len data mid).hart :=
      ⟨rfl, rfl, rfl, rfl, .refl ..⟩
    exact .walked (hview.trans hmip) htr hmid.tlb hmid.dram

theorem store_step {ty : MemType} {addr val : Reg} {m m' : Machine β}
    (h : Ends (store P ty addr val) m m') :
    AccessStep P .store addr (fun dram ptr => writeLE dram ptr ty.bytes (ty.toReg val)) m m' := by
  unfold store at h
  by_cases halign : misaligned addr ty.bytes = true
  · simp only [halign, if_true] at h
    obtain rfl := Ends.of_throw_bind h
    exact .idle (.refl _) (.refl _) rfl
  · simp only [halign] at h
    have h := Ends.of_get_bind h
    by_cases htag : m.mmu.tlbStoreTag (tlbIndex (addr >>> pgshift)) = addr >>> pgshift
    · simp only [htag, if_true] at h
      obtain rfl := Ends.of_modify h
      exact .hit (.refl _) (.inl htag) (.refl _) rfl
    · simp only [htag, if_false] at h
      by_cases htrigger : m.mmu.tlbStoreTag (tlbIndex (addr >>> pgshift)) =
          (addr >>> pgshift) ||| tlbCheckTriggers
      · simp only [htrigger, if_true] at h
        rcases h.bind with ⟨e, herr⟩ | ⟨_, mid, hok, h⟩
        · have hcheck := (checkTrigger_onlyTrigger ..).error herr
          exact .idle (hcheck.hart ▸ .refl _) hcheck.tlb hcheck.dram
        · have hcheck := (checkTrigger_onlyTrigger ..).ok hok
          obtain rfl := Ends.of_modify h
          refine .hit (hcheck.hart ▸ .refl _) (.inr htrigger) hcheck.tlb ?_
          change writeLE mid.dram _ _ _ = _
          rw [hcheck.dram, hcheck.tlb.data]
      · simp only [htrigger, if_false] at h
        rw [storeSlowPath_eq] at h
        rcases h.bind with ⟨e, herr⟩ | ⟨paddr, mid, hok, h⟩
        · obtain ⟨-, -, rfl⟩ := translate_error P herr
          exact .idle (.refl _) (.refl _) rfl
        obtain ⟨leaf, htr, rfl⟩ := translate_ok P hok
        rcases h.bind with ⟨e, herr⟩ | ⟨_, mid, hok, h⟩
        · have hcheck := (checkTrigger_onlyTrigger ..).error herr
          exact .walked (hcheck.hart ▸ .refl _) htr hcheck.tlb hcheck.dram
        · have hcheck := (checkTrigger_onlyTrigger ..).ok hok
          exact storeAt_step (not_or.mpr ⟨htag, htrigger⟩) htr hcheck h

end Steps

/-! ## Coherence -/

section Coherence

variable {type : AccessType} {addr : Reg} {write : (Reg → BitVec 8) → Reg → Reg → BitVec 8}
  {m m' : Machine β}

/-- An access keeps the TLB coherent if the tables stay and if its refill agrees with
what is cached. -/
theorem AccessStep.coherent (hstep : AccessStep P type addr write m m') (h : Coherent P m)
    (htables : SameTables P m.hart m.dram m'.dram)
    (hagree : ¬ TlbHit m.mmu type addr → RefillAgrees P m type addr) : Coherent P m' := by
  cases hstep with
  | idle hview htlb _ => exact h.frame htlb hview htables
  | hit hview _ htlb _ => exact h.frame htlb hview htables
  | walked hview _ htlb _ => exact h.frame htlb hview htables
  | memory hview hmiss htr hmem htlb _ =>
      rcases htlb with htlb | htlb
      · exact h.frame htlb hview htables
      · -- First the memory changes, then the slot is refilled.
        let mid : Machine β := { m with dram := m'.dram }
        have hsame (a : Reg) (kind : AccessType) :
            translation P mid.hart mid.dram a kind = translation P m.hart m.dram a kind :=
          translation_congr (.refl _) htables a kind
        have hmid : Coherent P mid := h.frame (.refl _) (.refl _) htables
        have hagree' : RefillAgrees P mid type addr := by
          intro kind hkind hhit
          rw [hsame, hsame]
          exact hagree hmiss kind hkind hhit
        refine (hmid.refill ((hsame addr type).trans htr) hmem hagree').frame htlb hview ?_
        exact SameTables.refl _ _

/-- Every entry that a hit goes past is marked: the update of its bits would change
nothing. -/
def Marked (P : Platform β) (m : Machine β) : Prop :=
  ∀ kind addr, TlbHit m.mmu kind addr → ∀ paddr leaf,
    translation P m.hart m.dram addr kind = some (paddr, leaf) →
      markLeaf m.dram kind leaf = m.dram

theorem marked_of_empty (h : m.mmu.TlbEmpty) : Marked P m :=
  fun kind addr hhit => absurd hhit (not_tlbHit_of_empty h kind addr)

theorem Marked.frame (h : Marked P m) (htlb : SameTlb m.mmu m'.mmu)
    (hview : SameView m.hart m'.hart) (htables : SameTables P m.hart m.dram m'.dram)
    (hkeeps : KeepsMarks P m.hart m.dram m'.dram) : Marked P m' := by
  intro kind addr hhit paddr leaf htr
  rw [translation_congr hview htables] at htr
  have hhit' : TlbHit m.mmu kind addr := by
    unfold TlbHit at hhit ⊢
    rwa [htlb.tags] at hhit
  exact hkeeps.markLeaf htr (h kind addr hhit' paddr leaf htr)

theorem Marked.refill (h : Marked P m) {vaddr paddr : Reg} {leaf : Option Reg}
    (htr : translation P m.hart m.dram vaddr type = some (paddr, leaf))
    (hmem : P.addrIsMem paddr = true) (hmarked : markLeaf m.dram type leaf = m.dram) :
    Marked P { m with mmu := m.mmu.refilled P vaddr paddr type } := by
  intro kind addr hhit paddr' leaf' htr'
  rcases tlbHit_refilled hhit with ⟨_, hold⟩ | ⟨hpage, hkind | hold⟩
  · exact h kind addr hold paddr' leaf' htr'
  · subst hkind
    have hleaf := (translation_samePage htr hmem hpage).1
    rw [show translation P m.hart m.dram addr kind = _ from htr'] at hleaf
    cases hleaf
    exact hmarked
  · exact h kind addr ((TlbHit.samePage hpage).mpr hold) paddr' leaf' htr'

end Coherence

end SpikeSim.Riscv
