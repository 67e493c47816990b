/-
# The pc stays even

The sentinels of `advance_pc` and the invalid tag of the instruction cache are odd, so
the loop takes the pc to be even.  Branches, jumps and trap vectors lead to even
addresses.  What does not is a return: `mepc`, `sepc` and `dpc` are written as they are,
and `mret`, `sret` and `dret` check only the second bit of what they find there.

`pc_stays_even` says that nothing else makes the pc odd, and `mret_to_odd_pc` shows a
guest that does it.
-/

import SpikeSim.Riscv.NextPc
import SpikeSim.Riscv.Reachable

namespace SpikeSim.Riscv

open Handler

variable {β : Type}

/-! ## The vectors -/

/-- A trap vector is left alone or set to an even address. -/
structure VectorsKept (m m' : Machine β) : Prop where
  mtvec : m'.hart.mtvec = m.hart.mtvec ∨ IsEven m'.hart.mtvec
  stvec : m'.hart.stvec = m.hart.stvec ∨ IsEven m'.hart.stvec

instance : Std.Refl (VectorsKept (β := β)) := ⟨fun _ => ⟨.inl rfl, .inl rfl⟩⟩

instance : IsTrans (Machine β) VectorsKept where
  trans _ _ _ hab hbc := {
    mtvec := hbc.mtvec.elim (fun h => h ▸ hab.mtvec) .inr
    stvec := hbc.stvec.elim (fun h => h ▸ hab.stvec) .inr }

theorem VectorsKept.of_same {m m' : Machine β} (hmtvec : m'.hart.mtvec = m.hart.mtvec)
    (hstvec : m'.hart.stvec = m.hart.stvec) : VectorsKept m m' :=
  ⟨.inl hmtvec, .inl hstvec⟩

/-- A change of the hart that does not touch the vectors. -/
theorem modifyHart_vectors {f : Hart → Hart} (hmtvec : ∀ h, (f h).mtvec = h.mtvec)
    (hstvec : ∀ h, (f h).stvec = h.stvec) : Keeps VectorsKept (modifyHart f : M β Unit) :=
  .modify fun m => .of_same (hmtvec m.hart) (hstvec m.hart)

theorem flushTlb_vectors : Keeps VectorsKept (flushTlb : M β Unit) :=
  .bind (.modify fun _ => .of_same rfl rfl) fun _ => .modify fun _ => .of_same rfl rfl

theorem setPrivilege_vectors (prv : Prv) : Keeps VectorsKept (setPrivilege prv : M β Unit) :=
  .bind flushTlb_vectors fun _ => modifyHart_vectors (fun _ => rfl) fun _ => rfl

theorem setMstatus_vectors (val : Reg) : Keeps VectorsKept (setMstatus val : M β Unit) := by
  refine .bind keeps_getHart fun h => .ite (.bind flushTlb_vectors fun _ => ?_) ?_
  all_goals exact modifyHart_vectors (fun _ => rfl) fun _ => rfl

theorem writeCsr_vectors (csr : Csr) (val : Reg) :
    Keeps VectorsKept (writeCsr csr val : M β Unit) := by
  refine .bind keeps_getHart fun h => ?_
  cases csr
  case mtvec => exact .modify fun _ => ⟨.inr (isEven_shiftLeft _ (by decide)), .inl rfl⟩
  case stvec => exact .modify fun _ => ⟨.inl rfl, .inr (isEven_shiftLeft _ (by decide))⟩
  case mstatus | sstatus => all_goals exact setMstatus_vectors _
  case sptbr =>
    refine .ite (.bind (.throw _) fun _ => ?_) ?_
    all_goals exact modifyHart_vectors (fun _ => rfl) fun _ => rfl
  case tselect => exact .ite (modifyHart_vectors (fun _ => rfl) fun _ => rfl) (.pure _)
  case tdata1 =>
    refine .ite (.pure _) (.bind (modifyHart_vectors (fun _ => rfl) fun _ => rfl) fun _ => ?_)
    refine .bind flushTlb_vectors fun _ => .bind keeps_getHart fun h => ?_
    exact .modify fun _ => .of_same rfl rfl
  case tdata2 => exact .ite (.pure _) (modifyHart_vectors (fun _ => rfl) fun _ => rfl)
  case cycle | instret | tdata3 | mvendorid | marchid | mimpid | mhartid =>
    all_goals exact .pure _
  all_goals exact modifyHart_vectors (fun _ => rfl) fun _ => rfl

theorem setCsr_vectors (which val : Reg) : Keeps VectorsKept (setCsr which val : M β Unit) := by
  unfold setCsr
  split
  · exact .pure _
  · exact writeCsr_vectors ..

theorem storeKeeps_vectors (P : Platform β) : StoreKeeps P VectorsKept where
  read := {
    walk := fun _ _ _ _ _ _ => .of_same rfl rfl
    refill := fun _ _ _ _ _ => .of_same rfl rfl
    matched := fun _ _ => .of_same rfl rfl
    device := fun _ _ _ => .of_same rfl rfl
    tracers := fun _ _ => .of_same rfl rfl }
  write _ _ := .of_same rfl rfl
  device _ _ _ _ := .of_same rfl rfl

theorem actKeeps_vectors (P : Platform β) : ActKeeps P (fun _ => True) VectorsKept where
  store := storeKeeps_vectors P
  hart _ hf m := by
    have hframe := Act.onHart_frame hf m.hart
    apply VectorsKept.of_same
    · rw [hframe]
    · rw [hframe]
  setPrivilege prv _ := setPrivilege_vectors prv
  setCsr which value _ := setCsr_vectors which value
  flushTlb := flushTlb_vectors
  flushIcache := .modify fun _ => .of_same rfl rfl

/-! ## The pc of the state -/

/-- The pc of the state is the same. -/
def SamePc (m m' : Machine β) : Prop := m'.hart.pc = m.hart.pc

instance : Std.Refl (SamePc (β := β)) := ⟨fun _ => rfl⟩

instance : IsTrans (Machine β) SamePc := ⟨fun _ _ _ hab hbc => Eq.trans hbc hab⟩

/-- Only `set_pc_and_serialize` sets it in a handler. -/
theorem actKeeps_samePc (P : Platform β) :
    ActKeeps P (fun a => ∀ pc, a ≠ .setStatePc pc) SamePc where
  store := {
    read := ⟨fun _ _ _ _ _ _ => rfl, fun _ _ _ _ _ => rfl, fun _ _ => rfl, fun _ _ _ => rfl,
      fun _ _ => rfl⟩
    write := fun _ _ => rfl
    device := fun _ _ _ _ => rfl }
  hart {a f} ha hf m := by
    change (f m.hart).pc = m.hart.pc
    cases a with
    | setStatePc pc => exact absurd rfl (ha pc)
    | writeXpr reg value =>
        cases hf
        simp only [Hart.writeXpr]
        split <;> rfl
    | setFpExceptions xlen flags =>
        cases hf
        simp only [Hart.setFpExceptions]
        split <;> rfl
    | writeFpr | setSerialized | setLoadReservation | leaveDebugMode =>
        all_goals
          cases hf
          rfl
    | hart | setPrivilege | load | store | amo | getCsr | setCsr | flushTlb | flushIcache =>
        all_goals cases hf
  setPrivilege prv _ := .bind (.bind (.modify fun _ => rfl) fun _ => .modify fun _ => rfl) fun _ =>
    .modify fun _ => rfl
  setCsr which value _ := (setCsr_csrFrame which value).imp fun m m' h => by
    change m'.hart.pc = m.hart.pc
    rw [h.hart]
  flushTlb := .bind (.modify fun _ => rfl) fun _ => .modify fun _ => rfl
  flushIcache := .modify fun _ => rfl

/-- The address that a return goes to. -/
def returnTarget (h : Hart) : InsnName → Option Reg
  | .mret => some h.mepc
  | .sret => some h.sepc
  | .dret => some h.dpc
  | _ => none

/-- `dret` requires M-mode and goes to `dpc`. -/
theorem run_dret_ok {P : Platform β} {c : Ctx} {npc : Reg} {m m' : Machine β}
    (h : (Insns.dret c).run (Act.exec P) m = .ok npc m') :
    npc = pcSerializeAfter ∧ m'.hart.pc = m.hart.dpc := by
  obtain ⟨h, -⟩ := run_requireAll_bind_ok h
  rw [run_readHart_bind] at h
  have h := run_setPcAndSerialize_bind_ok h
  obtain ⟨_, mid, hprv, h⟩ := Program.run_call_ok h
  rw [show mid = _ from (EStateM.Result.ok.inj (hprv.symm.trans (run_setPrivilege _ _))).2] at h
  obtain ⟨_, mid', hleave, h⟩ := Program.run_call_ok h
  cases h
  cases hleave
  exact ⟨rfl, rfl⟩

/-- What an instruction at an even pc returns, and where the pc of the state is then. -/
theorem ensures_insnProgram_pc (P : Platform β) (F : SoftFloat) (name : InsnName) (xlen : Xlen)
    (insn : Insn) {pc : Reg} (hpc : IsEven pc) (m : Machine β) :
    Ensures ((insnProgram F name xlen insn pc).run (Act.exec P)) m
      (fun npc m' => NextPc name npc ∧ m'.hart.pc = (returnTarget m.hart name).getD m.hart.pc)
      fun _ m' => m'.hart.pc = m.hart.pc := by
  -- As long as it is no return, the pc of the state stays as it is.
  let I : Machine β → Prop := fun s => isReturn name = false → SamePc m s
  have hexec : ∀ (a : Act) (s : Machine β), (isReturn name = false → ∀ pc, a ≠ .setStatePc pc) →
      I s → Ensures (a.exec P) s (fun _ s' => True ∧ I s') fun _ => I := by
    intro a s ha hs
    have hkeeps (hname : isReturn name = false) := (actKeeps_samePc P).exec (ha hname)
    exact ensures_iff.mpr
      ⟨fun _ _ hok => ⟨trivial, fun hname => ((hkeeps hname).ok hok).trans (hs hname)⟩,
        fun _ _ herror hname => ((hkeeps hname).error herror).trans (hs hname)⟩
  have hmeets := (meetsNext_insnProgram F name xlen insn hpc).ensures hexec (s := m) fun _ => rfl
  refine ensures_iff.mpr ⟨fun npc m' hrun => ?_, fun e m' hrun => ?_⟩
  · obtain ⟨hnext, hsame⟩ := hmeets.ok hrun
    refine ⟨hnext, ?_⟩
    cases hname : isReturn name with
    | false =>
        rw [hsame hname]
        cases name with
        | mret | sret | dret => all_goals cases hname
        | _ => rfl
    | true =>
        have hmem : name ∈ [InsnName.mret, .sret, .dret] := by simpa [isReturn] using hname
        simp only [List.mem_cons, List.not_mem_nil, or_false] at hmem
        rcases hmem with rfl | rfl | rfl
        · obtain ⟨-, -, rfl⟩ := run_trapReturn_ok hrun
          rfl
        · obtain ⟨-, -, rfl⟩ := run_trapReturn_ok hrun
          rfl
        · exact (run_dret_ok hrun).2
  · rw [(insnProgram_throws_hartKept hrun).hart]

/-! ## The invariant -/

/-- What `step` may use as a pc is even. -/
structure EvenState (m : Machine β) : Prop where
  pc : IsEven m.hart.pc
  mtvec : IsEven m.hart.mtvec
  stvec : IsEven m.hart.stvec
  tags : ∀ i, IsEven (m.mmu.icache i).tag ∨ (m.mmu.icache i).tag = -1

/-- What a handler returns at an even pc. -/
def ValidNext (npc : Reg) : Prop :=
  IsEven npc ∨ npc = pcSerializeBefore ∨ npc = pcSerializeAfter

namespace EvenState

variable {m m' : Machine β}

theorem of_kept (h : EvenState m) (hpc : IsEven m'.hart.pc) (hvectors : VectorsKept m m')
    (hcode : SameCode m m') : EvenState m' where
  pc := hpc
  mtvec := hvectors.mtvec.elim (fun h' => h' ▸ h.mtvec) id
  stvec := hvectors.stvec.elim (fun h' => h' ▸ h.stvec) id
  tags i := (hcode.tags i).elim (fun h' => h' ▸ h.tags i) .inr

theorem of_fetch {addr : Reg} (h : EvenState m) (haddr : IsEven addr) (hframe : FetchFrame addr m m') :
    EvenState m' where
  pc := hframe.hart ▸ h.pc
  mtvec := hframe.hart ▸ h.mtvec
  stvec := hframe.hart ▸ h.stvec
  tags i := by
    rcases hframe.tags i with htag | htag | htag
    · rw [htag]
      exact h.tags i
    · rw [htag]
      exact .inl haddr
    · exact .inr htag

/-- The bookkeeping of the loop. -/
theorem withPc (h : EvenState m) {pc : Reg} (hpc : IsEven pc) (minstret : Reg) (serialized : Bool)
    (singleStep : SingleStep) :
    EvenState { m with hart := { m.hart with
      pc := pc, minstret := minstret, serialized := serialized, singleStep := singleStep } } :=
  ⟨hpc, h.mtvec, h.stvec, h.tags⟩

/-- Debug mode starts at an even address. -/
theorem enterDebugMode (h : EvenState m) (cause : DebugCause) :
    Ensures (enterDebugMode cause) m (fun _ => EvenState) fun _ => EvenState :=
  Ensures.of_ok (run_enterDebugMode cause m)
    ⟨(by decide : IsEven debugRomStart), h.mtvec, h.stvec, fun _ => .inr rfl⟩

/-- A trap goes to a vector or to the debug ROM. -/
theorem takeTrap (h : EvenState m) (t : Trap) (epc : Reg) :
    Ensures (takeTrap t epc) m (fun _ => EvenState) fun _ => EvenState := by
  by_cases henters : t.cause = 3 ∧ ebreakEnters m.hart
  · exact Ensures.of_ok (run_takeTrap_enters henters epc)
      ⟨(by decide : IsEven debugRomStart), h.mtvec, h.stvec, fun _ => .inr rfl⟩
  · cases hdebug : m.hart.inDebugMode with
    | true =>
        exact Ensures.of_ok (run_takeTrap_inDebugMode hdebug henters epc)
          ⟨(by decide : IsEven debugRomException), h.mtvec, h.stvec, h.tags⟩
    | false =>
        refine Ensures.of_ok (run_takeTrap t epc hdebug henters) ?_
        unfold Hart.afterTrap
        split
        · exact ⟨h.stvec, h.mtvec, h.stvec, fun _ => .inr rfl⟩
        · exact ⟨h.mtvec, h.mtvec, h.stvec, fun _ => .inr rfl⟩

theorem finishStep (h : EvenState m) :
    Ensures finishStep m (fun _ => EvenState) fun _ => EvenState :=
  Ensures.bind ((h.withPc h.pc m.hart.minstret m.hart.serialized .none).enterDebugMode .step)

end EvenState

/-- The address that the instruction goes to, if it is a return. -/
def returnOf (h : Hart) : Decode.InsnFunc → Option Reg
  | .rv32 name | .rv64 name => returnTarget h name
  | .custom _ | .illegalInstruction => none

/-- The address that the return at a point goes to. -/
def Point.returnsTo : Point β → Option Reg
  | .execute _ _ fetch (m, _) => returnOf m.hart fetch.1
  | _ => none

/-- No return to an odd address is executed at the point. -/
def Point.EvenReturns (p : Point β) : Prop := ∀ target ∈ p.returnsTo, IsEven target

/-- An instruction at an even pc. -/
theorem ensures_executeInsn_even (P : Platform β) (F : SoftFloat) {pc : Reg} (hpc : IsEven pc)
    {fetch : Decode.InsnFunc × Insn} {m : Machine β} (h : EvenState m)
    (hreturn : ∀ target ∈ returnOf m.hart fetch.1, IsEven target) :
    Ensures (executeInsn P F pc fetch) m (fun npc m' => ValidNext npc ∧ EvenState m')
      fun _ => EvenState := by
  have hvectors : Keeps VectorsKept (executeInsn P F pc fetch) :=
    executeInsn_keeps (actKeeps_vectors P) (fun _ _ _ => .of_same rfl rfl) F pc fetch
  have hcode := executeInsn_sameCode (P := P) F pc fetch
  refine ensures_iff.mpr ⟨fun npc m' hrun => ?_, fun e m' hrun => ?_⟩
  · suffices hnext : ValidNext npc ∧ IsEven m'.hart.pc from
      ⟨hnext.1, h.of_kept hnext.2 (hvectors.ok hrun) (hcode.ok hrun)⟩
    obtain ⟨npc', mid, hcall, hrecord⟩ := bind_ok hrun
    have hlast : npc' = npc ∧ m'.hart = mid.hart := by
      by_cases hbefore : npc' ≠ pcSerializeBefore
      · rw [if_pos hbefore] at hrecord
        cases hrecord
        exact ⟨rfl, rfl⟩
      · rw [if_neg hbefore] at hrecord
        cases hrecord
        exact ⟨rfl, rfl⟩
    obtain ⟨rfl, hhart⟩ := hlast
    have hname {name : InsnName} {xlen : Xlen}
        (htarget : ∀ target ∈ returnTarget m.hart name, IsEven target)
        (hprogram : (insnProgram F name xlen fetch.2 pc).run (Act.exec P) m = .ok npc' mid) :
        ValidNext npc' ∧ IsEven m'.hart.pc := by
      obtain ⟨hnext, hpc'⟩ := (ensures_insnProgram_pc P F name xlen fetch.2 hpc m).ok hprogram
      refine ⟨hnext.valid, ?_⟩
      rw [hhart, hpc']
      cases hto : returnTarget m.hart name with
      | none => exact h.pc
      | some target => exact htarget target hto
    obtain ⟨func, insn⟩ := fetch
    cases func with
    | rv32 name => exact hname hreturn hcall
    | rv64 name => exact hname hreturn hcall
    | custom n | illegalInstruction => all_goals cases hcall
  · refine h.of_kept ?_ (hvectors.error hrun) (hcode.error hrun)
    rw [(executeInsn_throws_hartKept hrun).hart]
    exact h.pc

/-! ## Runs -/

/-- The invariant between the rounds of `step`. -/
def EvenIdle (rocc : Bool) (xlen : Xlen) (m : Machine β) : Prop := CodeInv rocc xlen m ∧ EvenState m

theorem sameCode_of_hart {m : Machine β} {h : Hart} (hxlen : h.xlen = m.hart.xlen)
    (hmax : h.maxXlen = m.hart.maxXlen) : SameCode m { m with hart := h } :=
  .of_icache rfl hmax (.inl hxlen) rfl

section Rules

variable {rocc : Bool} {xlen : Xlen}

/-- Code that keeps both parts. -/
theorem ensures_evenIdle {α : Type} {x : M β α} {m : Machine β} (hm : EvenIdle rocc xlen m)
    (hcode : Keeps SameCode x) (heven : Ensures x m (fun _ => EvenState) fun _ => EvenState) :
    Ensures x m (fun _ => EvenIdle rocc xlen) fun _ => EvenIdle rocc xlen :=
  ensures_iff.mpr ⟨fun _ _ h => ⟨hm.1.same (hcode.ok h), heven.ok h⟩,
    fun _ _ h => ⟨hm.1.same (hcode.error h), heven.error h⟩⟩

theorem EvenIdle.withPc {m : Machine β} (h : EvenIdle rocc xlen m) {pc : Reg} (hpc : IsEven pc)
    (minstret : Reg) (serialized : Bool) (singleStep : SingleStep) :
    EvenIdle rocc xlen { m with hart := { m.hart with
      pc := pc, minstret := minstret, serialized := serialized, singleStep := singleStep } } :=
  ⟨h.1.same (sameCode_of_hart rfl rfl), h.2.withPc hpc minstret serialized singleStep⟩

theorem EvenIdle.enterDebugMode {m : Machine β} (h : EvenIdle rocc xlen m) (cause : DebugCause) :
    Ensures (enterDebugMode cause) m (fun _ => EvenIdle rocc xlen) fun _ => EvenIdle rocc xlen :=
  ensures_evenIdle h (enterDebugMode_sameCode cause) (h.2.enterDebugMode cause)

theorem EvenIdle.takeTrap {m : Machine β} (h : EvenIdle rocc xlen m) (t : Trap) (epc : Reg) :
    Ensures (takeTrap t epc) m (fun _ => EvenIdle rocc xlen) fun _ => EvenIdle rocc xlen :=
  ensures_evenIdle h (takeTrap_sameCode t epc) (h.2.takeTrap t epc)

theorem EvenIdle.finishStep {m : Machine β} (h : EvenIdle rocc xlen m) :
    Ensures finishStep m (fun _ => EvenIdle rocc xlen) fun _ => EvenIdle rocc xlen :=
  Ensures.bind ((h.withPc h.2.pc m.hart.minstret m.hart.serialized .none).enterDebugMode .step)

theorem EvenIdle.stepPrologue {P : Platform β} {m : Machine β} (h : EvenIdle rocc xlen m) (n : Nat) :
    Ensures (stepPrologue P n) m (fun _ => EvenIdle rocc xlen) fun _ => EvenIdle rocc xlen := by
  refine Ensures.bind (.ite (fun _ => h) fun _ => ?_)
  refine Ensures.bind (.ite (fun _ => Ensures.bind ?_) fun _ => ?_)
  · exact (h.enterDebugMode .debugint).imp (fun _ _ h => h) fun _ _ h => h
  · refine Ensures.bind (.ite (fun _ => Ensures.bind ?_) fun _ => h)
    exact (h.enterDebugMode .halt).imp (fun _ _ h => h) fun _ _ h => h

theorem EvenIdle.interferes {m m' : Machine β} (h : EvenIdle rocc xlen m) (hm : Interferes m m') :
    EvenIdle rocc xlen m' := by
  obtain ⟨mip, debug, reservation, -, hhart⟩ := hm.hart
  refine ⟨h.1.same (.of_icache hm.decoder ?_ (.inl ?_) ?_), ?_, ?_, ?_, ?_⟩
  · rw [hhart]
  · rw [hhart]
  · rw [hm.mmu]
  · rw [hhart]
    exact h.2.pc
  · rw [hhart]
    exact h.2.mtvec
  · rw [hhart]
    exact h.2.stvec
  · rw [hm.mmu]
    exact h.2.tags

/-- The obligations of a run: inside of a loop the local pc is even as well. -/
theorem loopRules_even (P : Platform β) (F : SoftFloat) (rocc : Bool) (xlen : Xlen) :
    LoopRules P F Point.EvenReturns (EvenIdle rocc xlen)
      (fun s => EvenIdle rocc xlen s.1 ∧ IsEven s.2.pc)
      (fun npc s => EvenIdle rocc xlen s.1 ∧ ValidNext npc) fun _ => True where
  interfere hm h := h.interferes hm
  prologue _ h hrun := (h.stepPrologue _).ok hrun
  enter h := ⟨h, h.2.pc⟩
  leave h := h.1
  count k h := h.withPc h.2.pc _ _ _
  begin := by
    rintro n turns m l - ⟨h, hpc⟩
    unfold Machine.beginTurn
    split
    · exact ⟨h.withPc h.2.pc _ _ _, hpc⟩
    · exact ⟨h, hpc⟩
  load := by
    rintro m l ⟨h, hpc⟩
    refine (ensures_loadInsn h.1 l.pc).imp ?_ ?_
    · exact fun fetch m' ⟨_, hinv, hframe⟩ => ⟨⟨⟨hinv, h.2.of_fetch hpc hframe⟩, hpc⟩, trivial⟩
    · exact fun e m' ⟨hinv, hframe⟩ => ⟨⟨hinv, h.2.of_fetch hpc hframe⟩, hpc⟩
  lookup := by
    rintro m l ⟨h, hpc⟩
    refine (ensures_accessIcache h.1 l.pc).imp ?_ ?_
    all_goals exact fun _ m' ⟨hinv, hframe⟩ => ⟨⟨hinv, h.2.of_fetch hpc hframe⟩, hpc⟩
  entry _ _ := trivial
  refill := by
    rintro m l i ⟨h, hpc⟩
    refine (ensures_refillIcache h.1 l.pc i).imp ?_ ?_
    all_goals exact fun _ m' ⟨hinv, hframe⟩ => ⟨⟨hinv, h.2.of_fetch hpc hframe⟩, hpc⟩
  execute := by
    rintro site n fetch m l hreturn ⟨h, hpc⟩ -
    have heven := ensures_executeInsn_even P F hpc h.2 hreturn
    have hcode := executeInsn_sameCode (P := P) F l.pc fetch
    exact ensures_iff.mpr
      ⟨fun npc m' hrun => ⟨⟨h.1.same (hcode.ok hrun), (heven.ok hrun).2⟩, (heven.ok hrun).1⟩,
        fun e m' hrun => ⟨⟨h.1.same (hcode.error hrun), heven.error hrun⟩, hpc⟩⟩
  advance := by
    rintro npc m l ⟨h, hnext⟩
    refine ensures_advancePc ?_ ?_ ?_ ?_
    · exact fun _ => ⟨h.withPc h.2.pc _ _ _, h.2.pc⟩
    · exact fun _ => ⟨h, h.2.pc⟩
    · intro hinvalid hbefore hafter
      rcases hnext with heven | rfl | rfl
      · rw [(isEven_iff_not_invalidPc npc).mp heven] at hinvalid
        cases hinvalid
      · exact absurd rfl hbefore
      · exact absurd rfl hafter
    · intro hvalid
      have heven := (isEven_iff_not_invalidPc npc).mpr hvalid
      exact ⟨h.withPc heven _ _ _, heven⟩
  fall := by
    rintro npc m l i ⟨h, hnext⟩ htag
    have heven : IsEven npc := by
      rcases h.2.tags i with heven | hinvalid
      · exact htag ▸ heven
      · -- The invalid tag is no sentinel.
        rw [htag] at hinvalid
        subst hinvalid
        rcases hnext with heven | hbefore | hafter
        · exact heven
        · cases hbefore
        · cases hafter
    exact ⟨h.withPc heven _ _ _, heven⟩
  finish := by
    rintro m l ⟨h, hpc⟩ -
    exact h.finishStep.imp (fun _ _ h => ⟨h, hpc⟩) fun _ _ h => ⟨h, hpc⟩
  unmatch := by
    rintro m l ⟨h, hpc⟩
    exact ⟨⟨h.1.same (.of_icache rfl rfl (.inl rfl) rfl), h.2.pc, h.2.mtvec, h.2.stvec, h.2.tags⟩,
      hpc⟩
  trap := by
    rintro n t m l - ⟨h, -⟩
    refine Ensures.bind ((h.takeTrap t l.pc).imp ?_ fun _ _ h => h)
    intro _ m' h'
    exact Ensures.bind (.ite (fun _ => h'.finishStep) fun _ => h')
  action := by
    rintro n t ⟨m, l⟩ - ⟨h, hpc⟩
    apply Ensures.bind
    change Ensures (ite _ _ _) (m, l) _ _
    refine Ensures.ite (fun _ => ?_) fun _ => Ensures.ite (fun _ => ?_) fun _ => ⟨h, hpc⟩
    · exact ensures_lift.mpr ((h.enterDebugMode .hwbp).imp (fun _ _ h => ⟨h, hpc⟩)
        fun _ _ h => ⟨h, hpc⟩)
    · exact Ensures.bind (ensures_lift.mpr ((h.takeTrap ⟨3, some t.address⟩ l.pc).imp
        (fun _ _ h => ⟨h, hpc⟩) fun _ _ h => ⟨h, hpc⟩))

/-- After construction everything is even. -/
theorem evenIdle_machine (cfg : IsaConfig) (halt : Bool) (dram : Reg → BitVec 8) (dev : β) :
    EvenIdle cfg.ext cfg.maxXlen (cfg.machine halt dram dev) := by
  constructor
  · exact (codeInv_reset cfg.ext cfg.maxXlen cfg.isa halt dram dev).same
      (.of_icache rfl rfl (.inl rfl) rfl)
  · exact ⟨(by decide : IsEven defaultRstvec), (by decide : IsEven defaultMtvec),
      (by decide : IsEven 0), fun _ => .inr rfl⟩

theorem EvenIdle.method {m m' : Machine β} (hcall : MethodCall m m') (h : EvenIdle rocc xlen m) :
    EvenIdle rocc xlen m' := by
  refine hcall.keeps (R := Stable (EvenIdle rocc xlen)) (fun which val => ?_) (fun t epc => ?_)
    (fun cause => ?_) h
  · have hframe := setCsr_csrFrame (β := β) which val
    have hvectors := setCsr_vectors (β := β) which val
    have hcode := setCsr_sameCode (β := β) which val
    refine ⟨fun hrun h => ?_, fun hrun h => ?_⟩
    · refine ⟨h.1.same (hcode.ok hrun), h.2.of_kept ?_ (hvectors.ok hrun) (hcode.ok hrun)⟩
      rw [(hframe.ok hrun).hart]
      exact h.2.pc
    · refine ⟨h.1.same (hcode.error hrun), h.2.of_kept ?_ (hvectors.error hrun) (hcode.error hrun)⟩
      rw [(hframe.error hrun).hart]
      exact h.2.pc
  · exact keeps_stable_iff.mpr fun m h => h.takeTrap t epc
  · exact keeps_stable_iff.mpr fun m h => h.enterDebugMode cause

end Rules

/-- The invariant at every point of a run that returns to even addresses only. -/
theorem reachable_even {P : Platform β} {F : SoftFloat} (cfg : IsaConfig) (halt : Bool)
    (dram : Reg → BitVec 8) (dev : β) {r : ℕ → Point β} {len : ℕ}
    (hrun : IsRun (HartStep P F) r len) (hinit : r 0 = .idle (cfg.machine halt dram dev))
    (hreturns : ∀ k < len, (r k).EvenReturns) :
    ∀ k ≤ len, PointInv (EvenIdle cfg.ext cfg.maxXlen)
      (fun s => EvenIdle cfg.ext cfg.maxXlen s.1 ∧ IsEven s.2.pc) (fun _ => True) (r k) := by
  apply (loopRules_even P F cfg.ext cfg.maxXlen).reachable (fun hcall h => h.method hcall) hrun
    hreturns
  rw [hinit]
  exact evenIdle_machine cfg halt dram dev

/-- The pc of the loop at a point inside of it. -/
def Point.localPc : Point β → Option Reg
  | .slow _ _ s | .fast _ _ _ s | .execute _ _ _ s | .caught _ _ s | .action _ _ s => some s.2.pc
  | .idle _ | .head _ _ | .stopped _ _ => none

/-- What the invariant says about the pcs of a point. -/
theorem PointInv.evenPcs {rocc : Bool} {xlen : Xlen} {p : Point β}
    (h : PointInv (EvenIdle rocc xlen) (fun s => EvenIdle rocc xlen s.1 ∧ IsEven s.2.pc)
      (fun _ => True) p) :
    IsEven p.machine.hart.pc ∧ ∀ pc ∈ p.localPc, IsEven pc := by
  have hlocal {s : Machine β × Locals} (hs : EvenIdle rocc xlen s.1 ∧ IsEven s.2.pc) :
      IsEven s.1.hart.pc ∧ ∀ pc ∈ some s.2.pc, IsEven pc := by
    refine ⟨hs.1.2.pc, ?_⟩
    rintro pc ⟨rfl⟩
    exact hs.2
  cases p with
  | idle m | head n m | stopped e m => all_goals exact ⟨h.2.pc, nofun⟩
  | slow n turns s | fast n turns at? s | caught n e s | action n t s => all_goals exact hlocal h
  | execute site n fetch s => exact hlocal h.1

theorem IsEven.ne_invalidTag {pc : Reg} (h : IsEven pc) : pc ≠ -1 := by
  rintro rfl
  revert h
  decide

/-- **The pc stays even** in every run from the construction of a hart that executes no return to
an odd address.  No pc is then the invalid tag of the cache, a handler returns nothing odd but
the sentinels, and `advance_pc` does not abort. -/
theorem pc_stays_even {P : Platform β} {F : SoftFloat} (cfg : IsaConfig) (halt : Bool)
    (dram : Reg → BitVec 8) (dev : β) {r : ℕ → Point β} {len : ℕ}
    (hrun : IsRun (HartStep P F) r len) (hinit : r 0 = .idle (cfg.machine halt dram dev))
    (hreturns : ∀ k < len, (r k).EvenReturns) :
    (∀ k ≤ len, ∀ pc, pc = (r k).machine.hart.pc ∨ pc ∈ (r k).localPc → IsEven pc ∧ pc ≠ -1) ∧
    ∀ k < len, ∀ site n fetch m l npc m', r k = .execute site n fetch (m, l) →
      executeInsn P F l.pc fetch m = .ok npc m' →
      (invalidPc npc = true → npc = pcSerializeBefore ∨ npc = pcSerializeAfter) ∧
      ∀ e s, advancePc (m', { l with pc := npc }) ≠ .error e s := by
  have hinv := reachable_even cfg halt dram dev hrun hinit hreturns
  constructor
  · intro k hk pc hpc
    obtain ⟨hstate, hlocal⟩ := (hinv k hk).evenPcs
    have heven : IsEven pc := hpc.elim (fun h => h ▸ hstate) (hlocal pc)
    exact ⟨heven, IsEven.ne_invalidTag heven⟩
  · intro k hk site n fetch m l npc m' hpoint hexec
    have hk' := hinv k hk.le
    have hreturn := hreturns k hk
    rw [hpoint] at hk' hreturn
    obtain ⟨hnext, -⟩ := (ensures_executeInsn_even P F hk'.1.2 hk'.1.1.2 hreturn).ok hexec
    have hsentinel (hinvalid : invalidPc npc = true) :
        npc = pcSerializeBefore ∨ npc = pcSerializeAfter := by
      apply hnext.resolve_left
      rw [isEven_iff_not_invalidPc, hinvalid]
      decide
    refine ⟨hsentinel, fun e s habort => ?_⟩
    rw [run_advancePc] at habort
    by_cases hinvalid : invalidPc npc = true
    · rw [if_pos hinvalid] at habort
      rcases hsentinel hinvalid with rfl | rfl
      · cases habort
      · cases habort
    · rw [if_neg hinvalid] at habort
      cases habort

/-- `csrwi mepc, 0` and `mret`. -/
def evenReturn : Platform Bool := .rom [0x34105073, 0x30200073]

/-- `csrwi mepc, 1` and `mret`. -/
def oddReturn : Platform Bool := .rom [0x3410d073, 0x30200073]

/-- An `rv64g` hart. -/
def returningMachine : Machine Bool :=
  IsaConfig.machine ⟨.rv64, 0x8000000000141129, false⟩ false (fun _ => 0) false

/-- A call of `step` for the first program. -/
def returningRun : ℕ → Point Bool
  | 0 => .idle returningMachine
  | k + 1 => (Point.next evenReturn .zeros)^[k] (.head 2 returningMachine)

theorem returningRun_even :
    (returningRun 9).machine.hart.pc = 0 ∧ IsEven (returningRun 9).machine.hart.pc := by
  have hfacts : (∀ k < 8, (returningRun (k + 1)).isIdle = false) ∧
      (∀ k < 9, (returningRun k).returnsTo = none ∨ (returningRun k).returnsTo = some 0) ∧
        (returningRun 9).machine.hart.pc = 0 := by
    decide +kernel
  obtain ⟨hinside, htargets, hpc⟩ := hfacts
  have hreturns : ∀ k < 9, (returningRun k).EvenReturns := by
    intro k hk target htarget
    rcases htargets k hk with hnone | hzero
    · rw [hnone] at htarget
      cases htarget
    · rw [hzero] at htarget
      cases htarget
      decide
  have hrun : IsRun (Next evenReturn .zeros) returningRun 9 :=
    isRun_call _ _ (n := 2) rfl rfl (fun _ => rfl) hinside
  have heven := (pc_stays_even _ false (fun _ => 0) false (fun k hk => .next (hrun k hk)) rfl
    hreturns).1 9 le_rfl
  generalize (returningRun 9) = p at *
  exact ⟨hpc, (heven _ (.inl rfl)).1⟩

/-- The second program leaves an odd pc. -/
theorem mret_to_odd_pc :
    ∃ m, Reaches oddReturn .zeros (.idle returningMachine) (.idle m) ∧ ¬IsEven m.hart.pc := by
  let p := (Point.next oddReturn .zeros)^[9] (.head 2 returningMachine)
  have hfacts : p.isIdle = true ∧ ¬IsEven p.machine.hart.pc := by
    decide +kernel
  refine ⟨p.machine, ?_, hfacts.2⟩
  rw [← Point.eq_idle hfacts.1]
  exact .head (.call 2 rfl) (reaches_iterate oddReturn .zeros _ 9)

end SpikeSim.Riscv
