/-
# Triggers on the two paths of an access

A load or a store checks for triggers on its slow path always, and on a TLB hit if the tag is
flagged.  A tag without the flag is only there while no trigger watches accesses of its kind
(`TagsFlagged`), so a hit skips no check.  What the two paths compare is another matter: the
fast path of a load passes the datum as it is converted to a register, with its sign, and the
slow path passes the bytes.
-/

import SpikeSim.Riscv.Legal
import SpikeSim.Riscv.TlbAccess
import SpikeSim.Riscv.TriggerMatch

namespace SpikeSim.Riscv

variable {β : Type}

/-! ## Flagged tags -/

/-- The trigger looks at accesses of this kind. -/
def Mcontrol.watches (mc : Mcontrol) : AccessType → Bool
  | .fetch => mc.execute
  | .load => mc.load
  | .store => mc.store

/-- Where a trigger watches a kind of access, the tags of that kind are flagged, and new ones
will be. -/
structure TagsFlagged (m : Machine β) : Prop where
  checks : ∀ kind i, (m.hart.mcontrol i).watches kind = true → m.mmu.checkTriggers kind = true
  tags : ∀ kind, m.mmu.checkTriggers kind = true →
    ∀ idx, (m.mmu.tlbTag kind idx).getLsbD 63 = true

section Kept

variable {m m' : Machine β}

theorem TagsFlagged.frame (h : TagsFlagged m) (hmcontrol : m'.hart.mcontrol = m.hart.mcontrol)
    (hchecks : m'.mmu.checkTriggers = m.mmu.checkTriggers)
    (htags : ∀ kind idx, m'.mmu.tlbTag kind idx = m.mmu.tlbTag kind idx ∨
      m.mmu.checkTriggers kind = false ∨ (m'.mmu.tlbTag kind idx).getLsbD 63 = true) :
    TagsFlagged m' where
  checks kind i := by
    rw [hmcontrol, hchecks]
    exact h.checks kind i
  tags kind hcheck idx := by
    rw [hchecks] at hcheck
    rcases htags kind idx with hsame | hoff | hflag
    · rw [hsame]
      exact h.tags kind hcheck idx
    · rw [hcheck] at hoff
      cases hoff
    · exact hflag

/-- A step that leaves the TLB alone. -/
theorem TagsFlagged.same (h : TagsFlagged m) (hmcontrol : m'.hart.mcontrol = m.hart.mcontrol)
    (htlb : SameTlb m.mmu m'.mmu) : TagsFlagged m' :=
  h.frame hmcontrol htlb.checks fun kind idx => .inl (by rw [htlb.tags])

/-- The parts of the memory port other than the TLB. -/
theorem SameTlb.of_fields (u : Mmu) (icache : Fin 1024 → IcacheEntry)
    (matched : Option TriggerMatched) :
    SameTlb u { u with icache := icache, matchedTrigger := matched } where
  data := rfl
  tags := by
    funext kind
    cases kind <;> rfl
  checks := by
    funext kind
    cases kind <;> rfl

theorem TagsFlagged.flushed (h : TagsFlagged m) :
    TagsFlagged { m with mmu := m.mmu.flushed } := by
  refine h.frame rfl ?_ fun kind idx => .inr (.inr ?_)
  · funext kind
    cases kind <;> rfl
  · rw [show m.mmu.flushed.tlbTag kind idx = -1 from tlbEmpty_flushed m.mmu kind idx]
    decide

theorem getLsbD_flagged (vpn : Reg) : (vpn ||| tlbCheckTriggers).getLsbD 63 = true := by
  rw [BitVec.getLsbD_or, show tlbCheckTriggers.getLsbD 63 = true from rfl, Bool.or_true]

/-- A refill flags the new tag if it has to, and keeps or drops the others. -/
theorem TagsFlagged.refilled (h : TagsFlagged m) (P : Platform β) (vaddr paddr : Reg)
    (type : AccessType) :
    TagsFlagged { m with mmu := m.mmu.refilled P vaddr paddr type } := by
  refine h.frame rfl ?_ fun kind idx => ?_
  · funext kind
    cases kind <;> rfl
  change (m.mmu.refilled P vaddr paddr type).tlbTag kind idx = _ ∨ _ ∨
    ((m.mmu.refilled P vaddr paddr type).tlbTag kind idx).getLsbD 63 = true
  rw [tlbTag_refilled]
  by_cases hidx : idx = tlbIndex (vaddr >>> pgshift)
  · subst hidx
    simp only [refillTag, Function.update_self]
    by_cases hkind : kind = type
    · subst hkind
      rw [if_pos rfl]
      cases hcheck : m.mmu.checkTriggers kind with
      | true => exact .inr (.inr (getLsbD_flagged _))
      | false => exact .inr (.inl rfl)
    · rw [if_neg hkind]
      split_ifs
      · exact .inr (.inr (by decide))
      · exact .inl rfl
  · exact .inl (Function.update_of_ne hidx ..)

/-- A write of `tdata1` flushes the TLB and sets the checks. -/
theorem tagsFlagged_withTriggers (m : Machine β) :
    TagsFlagged { m with mmu := m.mmu.withTriggers m.hart } where
  checks kind i hwatch := by
    have hmem : ∀ i : Fin 4, i ∈ [0, 1, 2, 3] := by decide
    cases kind with
    | fetch => exact List.any_eq_true.mpr ⟨i, hmem i, hwatch⟩
    | load => exact List.any_eq_true.mpr ⟨i, hmem i, hwatch⟩
    | store => exact List.any_eq_true.mpr ⟨i, hmem i, hwatch⟩
  tags kind _ idx := by
    have hempty : (m.mmu.withTriggers m.hart).tlbTag kind idx = -1 := by
      cases kind <;> rfl
    rw [show ({ m with mmu := m.mmu.withTriggers m.hart } : Machine β).mmu.tlbTag kind idx = -1
      from hempty]
    decide

end Kept

/-! ## Reachable states -/

theorem controlKeeps_flagged : ControlKeeps (Stable (TagsFlagged (β := β))) where
  flushTlb := ⟨fun h hm => by cases h; exact hm.flushed, fun h => by cases h⟩
  hart _ _ hmcontrol hm := hm.same hmcontrol (.refl _)
  record _ _ hm := hm.same rfl (.refl _)

theorem setCsr_flagged (which val : Reg) :
    Keeps (Stable TagsFlagged) (setCsr which val : M β Unit) := by
  by_cases hwhich : which = Csr.tdata1.num
  · subst hwhich
    refine keeps_stable_iff.mpr fun m hm => ?_
    rw [Ensures, run_setCsr_tdata1]
    split_ifs
    · exact hm
    · exact tagsFlagged_withTriggers { m with hart := m.hart.withTdata1 val }
  · exact controlKeeps_flagged.setCsr hwhich val

theorem readKeeps_flagged (P : Platform β) : ReadKeeps P (Stable TagsFlagged) where
  walk _ _ _ _ _ _ hm := hm.same rfl (.refl _)
  refill _ vaddr paddr type _ hm := hm.refilled P vaddr paddr type
  matched m t hm := hm.same rfl (.of_fields m.mmu m.mmu.icache t)
  device _ _ _ hm := hm.same rfl (.refl _)
  tracers _ _ hm := hm.same rfl (.refl _)

theorem actKeeps_flagged (P : Platform β) :
    ActKeeps P (fun _ => True) (Stable TagsFlagged) where
  store := {
    read := readKeeps_flagged P
    write := fun _ _ hm => hm.same rfl (.refl _)
    device := fun _ _ _ _ hm => hm.same rfl (.refl _) }
  hart {a f} _ hf m hm := by
    have hmcontrol : (f m.hart).mcontrol = m.hart.mcontrol := by rw [Act.onHart_frame hf]
    exact hm.same hmcontrol (.refl _)
  setPrivilege prv _ := controlKeeps_flagged.setPrivilege prv
  setCsr which value _ := setCsr_flagged which value
  flushTlb := controlKeeps_flagged.flushTlb
  flushIcache := .modify fun m hm => hm.same rfl (.of_fields m.mmu _ m.mmu.matchedTrigger)

theorem refillKeeps_flagged (P : Platform β) : RefillKeeps P (Stable TagsFlagged) where
  toFetchKeeps := (readKeeps_flagged P).fetch
  decoder _ _ hm := hm.same rfl (.refl _)
  traced _ _ _ hm := hm.same rfl (.refl _)
  icache m _ _ hm := hm.same rfl (.of_fields m.mmu _ m.mmu.matchedTrigger)

theorem machineRules_flagged (P : Platform β) (F : SoftFloat) :
    MachineRules P F TagsFlagged fun _ => True where
  bookkeeping _ _ _ _ hm := hm.same rfl (.refl _)
  unmatch {m} hm := hm.same rfl (.of_fields m.mmu m.mmu.icache none)
  load pc _ hm := (((refillKeeps_flagged P).loadInsn pc).ensures hm).imp
    (fun _ _ hm' => ⟨hm', trivial⟩) fun _ _ hm' => hm'
  lookup pc := (refillKeeps_flagged P).accessIcache pc
  entry _ _ := trivial
  refill pc i := (refillKeeps_flagged P).refillIcache pc i
  enterDebugMode cause := controlKeeps_flagged.enterDebugMode cause
  takeTrap t epc := controlKeeps_flagged.takeTrap t epc
  execute pc fetch _ := executeInsn_keeps (actKeeps_flagged P)
    (fun _ _ _ hm => hm.same rfl (.refl _)) F pc fetch
  interfere {m m'} h hm := by
    obtain ⟨mip, debug, reservation, -, hhart⟩ := h.hart
    exact hm.same (by rw [hhart]) (h.mmu ▸ .refl _)

theorem tagsFlagged_reset (cfg : IsaConfig) (halt : Bool) (dram : Reg → BitVec 8) (dev : β) :
    TagsFlagged (cfg.machine halt dram dev) where
  checks kind i hwatch := by cases kind <;> cases hwatch
  tags kind hcheck _ := by cases kind <;> cases hcheck

/-- **A tag without the flag** is that of a kind which no trigger watches, in every state that is
reached. -/
theorem reachable_flagged {P : Platform β} {F : SoftFloat} (cfg : IsaConfig) (halt : Bool)
    (dram : Reg → BitVec 8) (dev : β) {r : ℕ → Point β} {len : ℕ}
    (hrun : IsRun (HartStep P F) r len) (hinit : r 0 = .idle (cfg.machine halt dram dev)) {k : ℕ}
    (hk : k ≤ len) : TagsFlagged (r k).machine := by
  refine (machineRules_flagged P F).reachable setCsr_flagged hrun ?_ k hk
  rw [hinit]
  exact tagsFlagged_reset cfg halt dram dev

/-! ## What the paths raise -/

/-- The trigger that code has raised, and its timing. -/
def raised {α : Type} : EStateM.Result Exn (Machine β) α → Option (Fin 4 × Bool)
  | .error (.trigger t) m => some (t.index, (m.hart.mcontrol t.index).timing)
  | _ => none

/-- The trigger that a check for these values raises.  An instruction that is restarted after a
trigger has been reported is not checked again. -/
def Machine.decision (m : Machine β) (operation : TriggerOperation) (address data : Reg) :
    Option (Fin 4 × Bool) :=
  if m.mmu.matchedTrigger.isNone then
    (triggerMatch m.hart operation address data).map fun i => (i, (m.hart.mcontrol i).timing)
  else none

section Paths

variable {P : Platform β} {m : Machine β}

/-- Code that starts with a check, and raises no trigger after it. -/
theorem raised_checkTrigger {α : Type} {k : Unit → M β α} (hk : ∀ m', raised (k () m') = none)
    (operation : TriggerOperation) (address data : Reg) :
    raised ((checkTrigger operation address data >>= k) m) =
      m.decision operation address data := by
  simp only [checkTrigger, Machine.decision, run_bind, run_get]
  cases m.mmu.matchedTrigger with
  | some t => exact hk m
  | none =>
      cases triggerMatch m.hart operation address data with
      | none => exact hk m
      | some i =>
          simp only [Option.isNone_none, if_true]
          cases htiming : (m.hart.mcontrol i).timing with
          | true => simp [run_bind, raised, htiming]
          | false => simp [raised, htiming]

/-- Triggers that do not watch an operation do not match it. -/
theorem triggerMatch_unwatched {h : Hart} {operation : TriggerOperation}
    (hoff : ∀ i, triggerEnabled h operation (h.mcontrol i) = false) (address data : Reg) :
    triggerMatch h operation address data = none := by
  unfold triggerMatch
  split_ifs
  · rfl
  · rw [triggerMatchFrom_eq_find?, List.find?_eq_none]
    intro i _
    simp [triggerStops, triggerMatches, hoff i]

/-- A hit on a tag without the flag is one of a kind that no trigger watches. -/
theorem TagsFlagged.not_watched (h : TagsFlagged m) {k : AccessType} {addr : Reg}
    (htag : m.mmu.tlbTag k (tlbIndex (addr >>> pgshift)) = addr >>> pgshift) (i : Fin 4) :
    (m.hart.mcontrol i).watches k = false := by
  cases hwatch : (m.hart.mcontrol i).watches k with
  | false => rfl
  | true =>
      have hflag := h.tags k (h.checks k i hwatch) (tlbIndex (addr >>> pgshift))
      rw [htag, getLsbD_vpn addr (by decide)] at hflag
      cases hflag

/-- What the fast path of a load raises. -/
theorem raised_load_hit (hm : TagsFlagged m) {ty : MemType} {addr : Reg}
    (halign : misaligned addr ty.bytes = false) (hhit : TlbHit m.mmu .load addr) :
    raised (load P ty addr m) =
      m.decision .load addr (ty.toReg (readLE m.dram
        (m.mmu.tlbData (tlbIndex (addr >>> pgshift)) + addr) ty.bytes)) := by
  unfold load
  simp only [halign, Bool.false_eq_true, if_false, run_bind, run_get]
  by_cases hplain : m.mmu.tlbLoadTag (tlbIndex (addr >>> pgshift)) = addr >>> pgshift
  · have hoff (i : Fin 4) : triggerEnabled m.hart .load (m.hart.mcontrol i) = false := by
      have hwatch : (m.hart.mcontrol i).load = false := hm.not_watched (k := .load) hplain i
      simp [triggerEnabled, hwatch]
    rw [if_pos hplain, Machine.decision, triggerMatch_unwatched hoff]
    exact (ite_self none).symm
  · have hflag := hhit.resolve_left hplain
    change m.mmu.tlbLoadTag _ = _ at hflag
    rw [if_neg hplain, if_pos hflag]
    exact raised_checkTrigger (fun _ => rfl) ..

/-- What the slow path of a load from memory raises. -/
theorem raised_loadSlowPath {addr paddr : Reg} {leaf : Option Reg}
    (htr : translation P m.hart m.dram addr .load = some (paddr, leaf))
    (hmem : P.addrIsMem paddr = true) (len : Nat) :
    raised (loadSlowPath P addr len m) =
      m.decision .load addr (readLE (markLeaf m.dram .load leaf) (P.addrToMem paddr) len) := by
  rw [loadSlowPath_eq]
  simp only [run_bind, translate_eq, htr, loadAt, run_get, hmem, if_true]
  cases P.interested .load with
  | true => exact raised_checkTrigger (fun _ => rfl) ..
  | false => exact raised_checkTrigger (fun _ => rfl) ..

/-- What the fast path of a store raises. -/
theorem raised_store_hit (hm : TagsFlagged m) {ty : MemType} {addr : Reg}
    (halign : misaligned addr ty.bytes = false) (hhit : TlbHit m.mmu .store addr) (val : Reg) :
    raised (store P ty addr val m) = m.decision .store addr (ty.toReg val) := by
  unfold store
  simp only [halign, Bool.false_eq_true, if_false, run_bind, run_get]
  by_cases hplain : m.mmu.tlbStoreTag (tlbIndex (addr >>> pgshift)) = addr >>> pgshift
  · have hoff (i : Fin 4) : triggerEnabled m.hart .store (m.hart.mcontrol i) = false := by
      have hwatch : (m.hart.mcontrol i).store = false := hm.not_watched (k := .store) hplain i
      simp [triggerEnabled, hwatch]
    rw [if_pos hplain, Machine.decision, triggerMatch_unwatched hoff]
    exact (ite_self none).symm
  · have hflag := hhit.resolve_left hplain
    change m.mmu.tlbStoreTag _ = _ at hflag
    rw [if_neg hplain, if_pos hflag]
    exact raised_checkTrigger (fun _ => rfl) ..

/-- A store that has been checked raises no trigger. -/
theorem raised_storeAt (addr paddr : Reg) (len : Nat) (data : Reg) (m : Machine β) :
    raised (storeAt P addr paddr len data m) = none := by
  simp only [storeAt, run_bind, run_get]
  split_ifs
  all_goals rfl

/-- What the slow path of a store raises. -/
theorem raised_storeSlowPath {addr paddr : Reg} {leaf : Option Reg}
    (htr : translation P m.hart m.dram addr .store = some (paddr, leaf)) (len : Nat) (data : Reg) :
    raised (storeSlowPath P addr len data m) = m.decision .store addr data := by
  rw [storeSlowPath_eq]
  simp only [run_bind, translate_eq, htr]
  exact raised_checkTrigger (fun m' => raised_storeAt addr paddr len data m') ..

/-- Two data lead a check to the same decision: nothing is checked, in debug mode or because the
instruction is restarted, or every trigger that only one of the data stops at comes after one that
both stop at. -/
def Machine.DataAgree (m : Machine β) (operation : TriggerOperation) (address data data' : Reg) :
    Prop :=
  m.hart.inDebugMode = true ∨ m.mmu.matchedTrigger.isSome = true ∨
    ∀ i, triggerStops m.hart operation address data i ≠
        triggerStops m.hart operation address data' i →
      ∃ j < i, triggerStops m.hart operation address data j = true ∧
        triggerStops m.hart operation address data' j = true

theorem decision_eq_iff (operation : TriggerOperation) (address data data' : Reg) :
    m.decision operation address data = m.decision operation address data' ↔
      m.DataAgree operation address data data' := by
  cases hmatched : m.mmu.matchedTrigger with
  | some t => simp [Machine.decision, Machine.DataAgree, hmatched]
  | none =>
      simp only [Machine.decision, Machine.DataAgree, hmatched, Option.isNone_none, if_true,
        Option.isSome_none, Bool.false_eq_true, false_or]
      cases hdebug : m.hart.inDebugMode with
      | true => simp [triggerMatch, hdebug]
      | false =>
          have hinjective : Function.Injective fun i : Fin 4 => (i, (m.hart.mcontrol i).timing) :=
            fun i j h => congrArg Prod.fst h
          rw [(Option.map_injective hinjective).eq_iff,
            (triggerMatch_leastOf m.hart operation address data hdebug).eq_iff
              (triggerMatch_leastOf m.hart operation address data' hdebug)]
          simp

end Paths

/-- Both paths of a load find the same bytes in the memory. -/
def SameBytes (P : Platform β) (m : Machine β) (addr : Reg) (len : Nat) : Prop :=
  ∃ paddr leaf, translation P m.hart m.dram addr .load = some (paddr, leaf) ∧
    P.addrIsMem paddr = true ∧
    readLE (markLeaf m.dram .load leaf) (P.addrToMem paddr) len =
      readLE m.dram (m.mmu.tlbData (tlbIndex (addr >>> pgshift)) + addr) len

/-- They do where the TLB is coherent and its entries are marked. -/
theorem sameBytes_of_coherent {P : Platform β} {m : Machine β} (hcoherent : Coherent P m)
    (hmarked : Marked P m) {addr : Reg} (hhit : TlbHit m.mmu .load addr) (len : Nat) :
    SameBytes P m addr len := by
  obtain ⟨paddr, leaf, htr, hmem, hptr⟩ := hcoherent .load addr hhit
  refine ⟨paddr, leaf, htr, hmem, ?_⟩
  rw [hmarked .load addr hhit paddr leaf htr, hptr]

/-- **Triggers and the TLB.**  In every reachable state, a load that hits raises the trigger that
its slow path would raise exactly if the datum with its sign and the bytes lead the check to the
same decision; a store that hits always raises the trigger that its slow path would raise. -/
theorem trigger_paths_agree_iff {P : Platform β} {F : SoftFloat}
    {findExtension : List Char → Bool} {str : List Char} {cfg : IsaConfig}
    (hisa : parseIsaString findExtension str = some cfg) (halt : Bool) (dram : Reg → BitVec 8)
    (dev : β) {r : ℕ → Point β} {len : ℕ} (hrun : IsRun (HartStep P F) r len)
    (hinit : r 0 = .idle (cfg.machine halt dram dev)) {k : ℕ} (hk : k ≤ len) :
    let m := (r k).machine
    (∀ ty addr, misaligned addr ty.bytes = false → TlbHit m.mmu .load addr →
      SameBytes P m addr ty.bytes →
      let bytes := readLE m.dram (m.mmu.tlbData (tlbIndex (addr >>> pgshift)) + addr) ty.bytes
      (raised (load P ty addr m) = raised (loadSlowPath P addr ty.bytes m) ↔
        m.DataAgree .load addr (ty.toReg bytes) bytes)) ∧
    ∀ ty addr val, ty.signed = false → misaligned addr ty.bytes = false →
      TlbHit m.mmu .store addr →
      raised (store P ty addr val m) = raised (storeSlowPath P addr ty.bytes (ty.toReg val) m) := by
  have hflagged := reachable_flagged cfg halt dram dev hrun hinit hk
  have hl : Legal (r k).machine.hart :=
    ((hartRules_legal P F cfg.maxXlen).reachable ⟨legal_reset hisa halt dram dev, rfl⟩ hrun hinit
      k hk).1
  generalize (r k).machine = m at hflagged hl
  constructor
  · intro ty addr halign hhit hsame bytes
    obtain ⟨paddr, leaf, htr, hmem, hbytes⟩ := hsame
    rw [raised_load_hit hflagged halign hhit, raised_loadSlowPath htr hmem, hbytes]
    exact decision_eq_iff ..
  · intro ty addr val _ halign hhit
    obtain ⟨paddr, leaf, htr⟩ := translation_of_legal P hl addr .store
    rw [raised_store_hit hflagged halign hhit, raised_storeSlowPath htr]

/-- `lui x12, 0x80000`, `lb x10, 1(x12)` and `lb x10, 0(x12)`. -/
def loadProgram : Platform Bool := .rom [0x80000637, 0x00160503, 0x00060503]

/-- An `rv32ima` hart with `0xff` in the first byte of its memory. -/
def byteMachine : Machine Bool :=
  IsaConfig.machine ⟨.rv32, 0x40141101, false⟩ false (Function.update (fun _ => 0) 0 0xff) false

/-- The same, with a trigger on loads of the datum `0xff`. -/
def watchedMachine : Machine Bool :=
  let h := byteMachine.hart.withTdata1 0x80041
  { byteMachine with
    hart := { h with tdata2 := Function.update h.tdata2 0 0xff }
    mmu := byteMachine.mmu.withTriggers h }

/-- It is about to execute the last instruction. -/
def watchedPoint : Point Bool := (Point.next loadProgram .zeros)^[6] (.head 3 watchedMachine)

theorem watchedPoint_reached : ∃ r len, IsRun (HartStep loadProgram .zeros) r len ∧
    r 0 = .idle byteMachine ∧ r len = watchedPoint := by
  apply IsRun.of_path
  have hfirst : HartStep loadProgram .zeros (.idle byteMachine) (.idle { byteMachine with
      hart := byteMachine.hart.withTdata1 0x80041
      mmu := byteMachine.mmu.withTriggers (byteMachine.hart.withTdata1 0x80041) }) :=
    .method (.setCsr Csr.tdata1.num 0x80041 (.inl ⟨(), run_setCsr_tdata1 ..⟩))
  have hsecond : HartStep loadProgram .zeros (.idle { byteMachine with
      hart := byteMachine.hart.withTdata1 0x80041
      mmu := byteMachine.mmu.withTriggers (byteMachine.hart.withTdata1 0x80041) })
      (.idle watchedMachine) :=
    .method (.setCsr Csr.tdata2.num 0xff (.inl ⟨(), rfl⟩))
  have hrest : Relation.ReflTransGen (HartStep loadProgram .zeros) (.idle watchedMachine)
      watchedPoint := by
    have hnext : Reaches loadProgram .zeros (.idle watchedMachine) watchedPoint :=
      .head (.call 3 rfl) (reaches_iterate loadProgram .zeros _ 6)
    exact Relation.ReflTransGen.mono (fun _ _ h => HartStep.next h) _ _ hnext
  exact .head hfirst (.head hsecond hrest)

/-- What holds there. -/
theorem watchedPoint_facts :
    let m := watchedPoint.machine
    let addr : Reg := 0xffffffff80000000
    m.hart.xpr 12 = addr ∧ TlbHit m.mmu .load addr ∧
      translation loadProgram m.hart m.dram addr .load = some (0x80000000, none) ∧
      readLE m.dram 0 1 = 0xff ∧ m.mmu.tlbData (tlbIndex (addr >>> pgshift)) + addr = 0 ∧
      raised (load loadProgram int8 addr m) = none ∧
      raised (loadSlowPath loadProgram addr 1 m) = some (0, false) := by
  decide +kernel

theorem watchedPoint_sameBytes :
    SameBytes loadProgram watchedPoint.machine 0xffffffff80000000 1 := by
  obtain ⟨-, -, htr, -, hslot, -, -⟩ := watchedPoint_facts
  exact ⟨0x80000000, none, htr, by decide, by rw [hslot]; rfl⟩

/-- An `lbu` there raises what its slow path would raise. -/
theorem lbu_paths_agree :
    raised (load loadProgram uint8 0xffffffff80000000 watchedPoint.machine) =
      raised (loadSlowPath loadProgram 0xffffffff80000000 1 watchedPoint.machine) := by
  obtain ⟨-, hhit, -, hbytes, hslot, -, -⟩ := watchedPoint_facts
  have hsame := watchedPoint_sameBytes
  obtain ⟨r, len, hrun, hinit, hend⟩ := watchedPoint_reached
  have hisa : parseIsaString (fun _ => false) ['r', 'v', '3', '2', 'i', 'm', 'a'] =
      some ⟨.rv32, 0x40141101, false⟩ := by decide +kernel
  have hpaths := (trigger_paths_agree_iff hisa false _ false hrun hinit le_rfl).1 uint8
    0xffffffff80000000 (by decide)
  rw [hend] at hpaths
  generalize watchedPoint.machine = m at *
  apply (hpaths hhit hsame).mpr
  rw [hslot, show readLE m.dram 0 uint8.bytes = 0xff from hbytes]
  exact .inr (.inr fun i hi => absurd (congrArg (fun v => triggerStops m.hart .load _ v i)
    (show uint8.toReg 0xff = 0xff by decide)) hi)

/-- The `lb` that is executed there hits the TLB and raises no trigger, while its slow path would
raise trigger 0. -/
theorem lb_paths_differ :
    (∃ r len, IsRun (HartStep loadProgram .zeros) r len ∧ r 0 = .idle byteMachine ∧
      r len = watchedPoint) ∧
    misaligned 0xffffffff80000000 int8.bytes = false ∧
    TlbHit watchedPoint.machine.mmu .load 0xffffffff80000000 ∧
    SameBytes loadProgram watchedPoint.machine 0xffffffff80000000 int8.bytes ∧
    raised (load loadProgram int8 0xffffffff80000000 watchedPoint.machine) = none ∧
    raised (loadSlowPath loadProgram 0xffffffff80000000 int8.bytes watchedPoint.machine) =
      some (0, false) := by
  obtain ⟨-, hhit, -, -, -, hfast, hslow⟩ := watchedPoint_facts
  exact ⟨watchedPoint_reached, by decide, hhit, watchedPoint_sameBytes, hfast, hslow⟩

end SpikeSim.Riscv
