/-
# Counting instructions

`step` counts the instructions that it retires in a local variable, which bounds the loops, and
adds it to `minstret` at the end of a round.  `Tallied` is the invariant: at every point the
counter and the local add up to the instructions that were retired since the counter was last
written, and what is left of the budget of the call covers what is left of the round.

Two places break it, and `CountsAll` says of a point that it is neither: `advance_pc` in the catch
block of a trigger leaves the loop without the addition, and a sentinel that is also the tag of
the next entry of the instruction cache is taken for the address of that entry.
-/

import SpikeSim.Riscv.TriggerActions

namespace SpikeSim.Riscv

open Handler

variable {β : Type} {P : Platform β} {F : SoftFloat}

/-! ## What is counted -/

def Event.isRetired : Event → Bool
  | .retired .. => true
  | _ => false

/-- The number of instructions that the hart has retired. -/
def Machine.retired (m : Machine β) : ℕ := m.events.countP Event.isRetired

/-- The counter, the number of retired instructions, the flag that a CSR instruction waits for,
and the match that is remembered are the same. -/
structure SameTally (m m' : Machine β) : Prop where
  minstret : m'.hart.minstret = m.hart.minstret
  retired : m'.retired = m.retired
  serialized : m'.hart.serialized = m.hart.serialized
  matched : m'.mmu.matchedTrigger = m.mmu.matchedTrigger

instance : Std.Refl (SameTally (β := β)) := ⟨fun _ => ⟨rfl, rfl, rfl, rfl⟩⟩

instance : IsTrans (Machine β) SameTally where
  trans _ _ _ hab hbc := {
    minstret := hbc.minstret.trans hab.minstret
    retired := hbc.retired.trans hab.retired
    serialized := hbc.serialized.trans hab.serialized
    matched := hbc.matched.trans hab.matched }

/-- An event that is not the retirement of an instruction. -/
theorem Machine.retired_record {m : Machine β} {events : List Event}
    (h : events.countP Event.isRetired = 0) :
    ({ m with events := m.events ++ events } : Machine β).retired = m.retired := by
  unfold retired
  rw [List.countP_append, h, Nat.add_zero]

/-! ## Fetches, traps and debug entries -/

theorem refillKeeps_tally (P : Platform β) : RefillKeeps P SameTally where
  walk _ _ _ _ _ := ⟨rfl, rfl, rfl, rfl⟩
  refill _ _ _ := ⟨rfl, rfl, rfl, rfl⟩
  device _ _ _ := ⟨rfl, rfl, rfl, rfl⟩
  decoder _ _ := ⟨rfl, rfl, rfl, rfl⟩
  traced _ _ _ := ⟨rfl, rfl, rfl, rfl⟩
  icache _ _ _ := ⟨rfl, rfl, rfl, rfl⟩

theorem enterDebugMode_tally (cause : DebugCause) :
    Keeps SameTally (enterDebugMode cause : M β Unit) where
  ok {m _ m'} h := by
    cases (run_enterDebugMode cause m).symm.trans h
    exact ⟨rfl, Machine.retired_record (m := m) rfl, rfl, rfl⟩
  error {m _ m'} h := by cases (run_enterDebugMode cause m).symm.trans h

theorem takeTrap_tally (t : Trap) (epc : Reg) : Keeps SameTally (takeTrap t epc : M β Unit) := by
  have hruns (m : Machine β) : ∃ m', takeTrap t epc m = .ok () m' ∧ SameTally m m' := by
    by_cases henters : t.cause = 3 ∧ ebreakEnters m.hart
    · refine ⟨_, run_takeTrap_enters henters epc, rfl, ?_, rfl, rfl⟩
      rw [List.append_assoc]
      exact Machine.retired_record (m := m) rfl
    · cases hdebug : m.hart.inDebugMode with
      | true =>
          exact ⟨_, run_takeTrap_inDebugMode hdebug henters epc, rfl,
            Machine.retired_record (m := m) rfl, rfl, rfl⟩
      | false =>
          refine ⟨_, run_takeTrap t epc hdebug henters, ?_, Machine.retired_record (m := m) rfl,
            ?_, rfl⟩
          all_goals
            unfold Hart.afterTrap
            split <;> rfl
  constructor
  · intro m a m' h
    obtain ⟨m'', hrun, hsame⟩ := hruns m
    cases hrun.symm.trans h
    exact hsame
  · intro m e m' h
    obtain ⟨m'', hrun, hsame⟩ := hruns m
    cases hrun.symm.trans h

theorem finishStep_tally : Keeps SameTally (finishStep : M β Unit) :=
  .bind (.modify fun _ => ⟨rfl, rfl, rfl, rfl⟩) fun _ => enterDebugMode_tally .step

theorem stepPrologue_tally (n : Nat) : Keeps SameTally (stepPrologue P n) := by
  apply Keeps.bind keeps_getHart
  intro h
  apply Keeps.ite (.pure _)
  apply Keeps.bind .get
  intro m
  apply Keeps.ite (.bind (enterDebugMode_tally _) fun _ => .pure _)
  apply Keeps.bind keeps_getHart
  intro h
  exact .ite (.bind (enterDebugMode_tally _) fun _ => .pure _) (.pure _)

theorem catchTrap_tally (t : Trap) (pc : Reg) : Keeps SameTally (catchTrap t pc : M β Unit) := by
  apply Keeps.bind (takeTrap_tally t pc)
  intro _
  apply Keeps.bind keeps_getHart
  intro h
  exact .ite finishStep_tally (.pure _)

theorem triggerAction_tally (t : TriggerMatched) (m : Machine β) (l : Locals) :
    Ensures (triggerAction t) (m, l) (fun _ s => SameTally m s.1 ∧ s.2 = l)
      fun _ s => SameTally m s.1 ∧ s.2 = l := by
  apply Ensures.bind
  change Ensures (ite _ _ _) (m, l) _ _
  refine Ensures.ite (fun _ => ?_) fun _ => Ensures.ite (fun _ => ?_) fun _ => ?_
  · have hkept := enterDebugMode_tally (β := β) .hwbp
    exact ensures_lift.mpr
      (ensures_iff.mpr ⟨fun _ _ h => ⟨hkept.ok h, rfl⟩, fun _ _ h => ⟨hkept.error h, rfl⟩⟩)
  · have hkept := takeTrap_tally (β := β) ⟨3, some t.address⟩ l.pc
    exact Ensures.bind (ensures_lift.mpr
      (ensures_iff.mpr ⟨fun _ _ h => ⟨hkept.ok h, rfl⟩, fun _ _ h => ⟨hkept.error h, rfl⟩⟩))
  · exact ⟨Std.Refl.refl _, rfl⟩

/-! ## The match that is remembered -/

/-- The match that is remembered is the same. -/
def SameMatched (m m' : Machine β) : Prop := m'.mmu.matchedTrigger = m.mmu.matchedTrigger

instance : Std.Refl (SameMatched (β := β)) := ⟨fun _ => rfl⟩

instance : IsTrans (Machine β) SameMatched := ⟨fun _ _ _ hab hbc => Eq.trans hbc hab⟩

def Exn.isTrigger : Exn → Bool
  | .trigger _ => true
  | _ => false

/-- The match is the same, unless a trigger is thrown. -/
abbrev KeepsMatched {α : Type} (x : M β α) : Prop :=
  KeepsUnless (fun e => e.isTrigger = true) SameMatched x

theorem controlKeeps_matched : ControlKeeps (SameMatched (β := β)) where
  flushTlb := .bind (.modify fun _ => rfl) fun _ => .modify fun _ => rfl
  hart _ _ _ := rfl
  record _ _ := rfl

theorem setCsr_matched (which val : Reg) : Keeps SameMatched (setCsr which val : M β Unit) := by
  by_cases hwhich : which = Csr.tdata1.num
  · rw [hwhich]
    constructor
    · intro m a m' h
      rw [run_setCsr_tdata1] at h
      split at h
      · cases h
        rfl
      · cases h
        rfl
    · intro m e m' h
      rw [run_setCsr_tdata1] at h
      split at h <;> cases h
  · exact controlKeeps_matched.setCsr hwhich val

theorem translate_matched (addr : Reg) (type : AccessType) :
    Keeps SameMatched (translate P addr type) :=
  keeps_translate fun _ _ _ _ => rfl

theorem checkTrigger_matched (operation : TriggerOperation) (address data : Reg) :
    KeepsMatched (checkTrigger operation address data : M β Unit) := by
  have hthrow (matched : TriggerMatched) :
      KeepsMatched (throw (.trigger matched) : M β Unit) := by
    constructor
    · intro m a m' h
      cases h
    · intro m e m' h hno
      cases h
      exact absurd rfl hno
  apply KeepsUnless.bind Keeps.get.unless
  intro m
  split
  · split
    · exact (Keeps.pure _).unless
    · apply KeepsUnless.ite _ (hthrow _)
      constructor
      · intro m a m' h
        cases h
      · intro m e m' h hno
        cases h
        exact absurd rfl hno
  · exact (Keeps.pure _).unless

theorem load_matched (ty : MemType) (addr : Reg) : KeepsMatched (load P ty addr) := by
  have hslow : KeepsMatched (loadSlowPath P addr ty.bytes) := by
    rw [loadSlowPath_eq]
    refine .bind (translate_matched addr .load).unless fun paddr => .bind ?_ fun data =>
      .bind (checkTrigger_matched ..) fun _ => (Keeps.pure _).unless
    apply Keeps.unless
    refine .bind .get fun m => .ite ?_ (keeps_loadDevice (R := SameMatched) (fun _ => rfl) _)
    refine .ite (.bind (.modify fun _ => rfl) fun _ => .pure _) ?_
    exact .bind (.modify fun _ => rfl) fun _ => .pure _
  refine .ite (.bind (Keeps.throw _).unless fun _ => ?_) ?_
  all_goals
    refine .bind Keeps.get.unless fun m => .ite (Keeps.pure _).unless (.ite ?_ ?_)
    · exact .bind (checkTrigger_matched ..) fun _ => (Keeps.pure _).unless
    · exact .bind hslow fun _ => (Keeps.pure _).unless

theorem store_matched (ty : MemType) (addr val : Reg) : KeepsMatched (store P ty addr val) := by
  have hslow (val : Reg) : KeepsMatched (storeSlowPath P addr ty.bytes val) := by
    rw [storeSlowPath_eq]
    refine .bind (translate_matched addr .store).unless fun paddr =>
      .bind (checkTrigger_matched ..) fun _ => Keeps.unless ?_
    refine .bind .get fun m => .ite ?_ ?_
    · refine .bind (.modify fun _ => rfl) fun _ => ?_
      exact .ite (.modify fun _ => rfl) (.modify fun _ => rfl)
    · exact .bind (.modify fun _ => rfl) fun _ => .ite (.throw _) (.pure _)
  refine .ite (.bind (Keeps.throw _).unless fun _ => ?_) ?_
  all_goals
    have hwrite (f : Machine β → Reg → BitVec 8) :
        Keeps SameMatched (modify fun m => { m with dram := f m } : M β Unit) :=
      .modify fun _ => rfl
    refine .bind Keeps.get.unless fun m => .ite (hwrite _).unless (.ite ?_ (hslow _))
    exact .bind (checkTrigger_matched ..) fun _ => (hwrite _).unless

theorem amo_matched (ty : MemType) (addr : Reg) (f : Reg → Reg) :
    KeepsMatched (amo P ty addr f) := by
  refine .ite (.bind (Keeps.throw _).unless fun _ => ?_) ?_
  all_goals
    apply KeepsUnless.tryCatch
    · refine .bind (load_matched ..) fun lhs => ?_
      exact .bind (store_matched ..) fun _ => (Keeps.pure _).unless
    · intro e _
      split
      · exact (Keeps.ite (.throw _) (.throw _)).unless
      · exact (Keeps.throw _).unless
    · intro e he
      cases e with
      | trigger t => rfl
      | trap | abort => all_goals cases he

theorem act_matched (a : Act) : KeepsMatched (a.exec P) := by
  cases a with
  | hart => exact (Keeps.bind .get fun _ => .pure _).unless
  | writeXpr | writeFpr | setFpExceptions | setSerialized | setLoadReservation | setStatePc
  | leaveDebugMode | flushIcache =>
      all_goals
        apply Keeps.unless
        exact .modify fun _ => rfl
  | setPrivilege prv => exact (controlKeeps_matched.setPrivilege prv).unless
  | load ty addr => exact load_matched ty addr
  | store ty addr value => exact store_matched ty addr value
  | amo ty addr f => exact amo_matched ty addr f
  | getCsr which => exact (ReadKeeps.getCsr which).unless
  | setCsr which value => exact (setCsr_matched which value).unless
  | flushTlb => exact controlKeeps_matched.flushTlb.unless

/-- Only an instruction that throws a trigger remembers a match. -/
theorem executeInsn_matched (pc : Reg) (fetch : Decode.InsnFunc × Insn) :
    KeepsMatched (executeInsn P F pc fetch) := by
  apply KeepsUnless.bind
  · obtain ⟨func, insn⟩ := fetch
    cases func with
    | rv32 name => exact Program.keepsUnless_run act_matched _
    | rv64 name => exact Program.keepsUnless_run act_matched _
    | custom n | illegalInstruction => all_goals exact (Keeps.throw _).unless
  · intro npc
    apply Keeps.unless
    exact .ite (.bind (.modify fun _ => rfl) fun _ => .pure _) (.pure _)

/-! ## The counter -/

/-- The registers through which `minstret` is written. -/
def Csr.setsCounter : Csr → Bool
  | .minstret | .mcycle | .minstreth | .mcycleh => true
  | _ => false

/-- The number is that of such a register. -/
def isCounter (which : Reg) : Bool := (Csr.ofNum which).any Csr.setsCounter

/-- A CSR instruction. -/
def isCsrInsn (fetch : Decode.InsnFunc × Insn) : Bool :=
  match fetch.1 with
  | .rv32 name | .rv64 name => isCsrOp name
  | .custom _ | .illegalInstruction => false

/-- A CSR instruction that writes `minstret`. -/
def setsCounter (fetch : Decode.InsnFunc × Insn) (h : Hart) : Bool :=
  match fetch.1 with
  | .rv32 name | .rv64 name => isCounter fetch.2.csr && (csrOperand fetch.2 h 0 name).isSome
  | .custom _ | .illegalInstruction => false

/-- The counter is the same. -/
def SameCounter (m m' : Machine β) : Prop := m'.hart.minstret = m.hart.minstret

instance : Std.Refl (SameCounter (β := β)) := ⟨fun _ => rfl⟩

instance : IsTrans (Machine β) SameCounter := ⟨fun _ _ _ hab hbc => Eq.trans hbc hab⟩

theorem flushTlb_counter : Keeps SameCounter (flushTlb : M β Unit) :=
  .bind (.modify fun _ => rfl) fun _ => .modify fun _ => rfl

theorem writeCsr_counter {csr : Csr} (hcsr : csr.setsCounter = false) (val : Reg) :
    Keeps SameCounter (writeCsr csr val : M β Unit) := by
  have hstatus (val : Reg) : Keeps SameCounter (setMstatus val : M β Unit) := by
    refine .bind keeps_getHart fun h => .ite (.bind flushTlb_counter fun _ => ?_) ?_
    all_goals exact .modify fun _ => rfl
  refine .bind keeps_getHart fun h => ?_
  cases csr
  case minstret | mcycle | minstreth | mcycleh => all_goals cases hcsr
  case mstatus | sstatus => all_goals exact hstatus _
  case sptbr =>
    refine .ite (.bind (.throw _) fun _ => ?_) ?_
    all_goals exact .modify fun _ => rfl
  case tselect => exact .ite (.modify fun _ => rfl) (.pure _)
  case tdata1 =>
    refine .ite (.pure _) (.bind (.modify fun _ => rfl) fun _ => ?_)
    exact .bind flushTlb_counter fun _ => .bind keeps_getHart fun h => .modify fun _ => rfl
  case tdata2 => exact .ite (.pure _) (.modify fun _ => rfl)
  case cycle | instret | tdata3 | mvendorid | marchid | mimpid | mhartid =>
    all_goals exact .pure _
  all_goals exact .modify fun _ => rfl

theorem setCsr_counter {which : Reg} (hwhich : isCounter which = false) (val : Reg) :
    Keeps SameCounter (setCsr which val : M β Unit) := by
  unfold setCsr
  cases hcsr : Csr.ofNum which with
  | none => exact .pure _
  | some csr =>
      apply writeCsr_counter
      unfold isCounter at hwhich
      rw [hcsr] at hwhich
      exact hwhich

/-- The acts that leave the counter alone. -/
def Act.KeepsCounter : Act → Prop
  | .setCsr which _ => isCounter which = false
  | _ => True

theorem actKeeps_counter (P : Platform β) : ActKeeps P Act.KeepsCounter SameCounter where
  store := {
    read := ⟨fun _ _ _ _ _ _ => rfl, fun _ _ _ _ _ => rfl, fun _ _ => rfl, fun _ _ _ => rfl,
      fun _ _ => rfl⟩
    write := fun _ _ => rfl
    device := fun _ _ _ _ => rfl }
  hart {a f} _ hf m := by
    change (f m.hart).minstret = m.hart.minstret
    rw [Act.onHart_frame hf]
  setPrivilege _ _ := .bind flushTlb_counter fun _ => .modify fun _ => rfl
  setCsr _ val hwhich := setCsr_counter hwhich val
  flushTlb := flushTlb_counter
  flushIcache := .modify fun _ => rfl

/-- An instruction that is no CSR instruction on the counter leaves it alone. -/
theorem callFunc_counter (pc : Reg) {fetch : Decode.InsnFunc × Insn}
    (h : (isCsrInsn fetch && isCounter fetch.2.csr) = false) :
    Keeps SameCounter (callFunc P F fetch.1 fetch.2 pc) := by
  have hprogram (name : InsnName) (xlen : Xlen)
      (hname : (isCsrOp name && isCounter fetch.2.csr) = false) :
      Keeps SameCounter ((insnProgram F name xlen fetch.2 pc).run (Act.exec P)) := by
    apply Program.keeps_run fun a ha => (actKeeps_counter P).exec ha
    apply uses_of_family (handler_family F name _)
    · intro a ha
      cases a with
      | setCsr => exact ha.elim
      | _ => trivial
    · exact fun _ => trivial
    · trivial
    · exact fun _ => (by decide : isCounter Csr.mstatus.num = false)
    · intro hcsr _
      rw [hcsr] at hname
      exact hname
  obtain ⟨func, insn⟩ := fetch
  cases func with
  | rv32 name => exact hprogram name .rv32 h
  | rv64 name => exact hprogram name .rv64 h
  | custom n | illegalInstruction => all_goals exact .throw _

/-! ## The flag for serialization -/

/-- The flag is not set. -/
def ClearsSerialized (m m' : Machine β) : Prop :=
  m'.hart.serialized = true → m.hart.serialized = true

instance : Std.Refl (ClearsSerialized (β := β)) := ⟨fun _ => id⟩

instance : IsTrans (Machine β) ClearsSerialized := ⟨fun _ _ _ hab hbc h => hab (hbc h)⟩

/-- The acts that do not set the flag. -/
def Act.ClearsSerialized : Act → Prop
  | .setSerialized b => b = false
  | _ => True

theorem actKeeps_serialized (P : Platform β) :
    ActKeeps P Act.ClearsSerialized (ClearsSerialized (β := β)) where
  store := {
    read := ⟨fun _ _ _ _ _ _ => id, fun _ _ _ _ _ => id, fun _ _ => id, fun _ _ _ => id,
      fun _ _ => id⟩
    write := fun _ _ => id
    device := fun _ _ _ _ => id }
  hart {a f} ha hf m := by
    change (f m.hart).serialized = true → m.hart.serialized = true
    cases a with
    | setSerialized b =>
        cases hf
        obtain rfl : b = false := ha
        exact fun h => by cases h
    | writeXpr reg value =>
        cases hf
        unfold Hart.writeXpr
        split <;> exact id
    | setFpExceptions xlen flags =>
        cases hf
        unfold Hart.setFpExceptions
        split <;> exact id
    | writeFpr | setLoadReservation | setStatePc | leaveDebugMode =>
        all_goals
          cases hf
          exact id
    | hart | setPrivilege | load | store | amo | getCsr | setCsr | flushTlb | flushIcache =>
        all_goals cases hf
  setPrivilege _ _ := .bind (.bind (.modify fun _ => id) fun _ => .modify fun _ => id)
    fun _ => .modify fun _ => id
  setCsr which value _ := (setCsr_csrFrame which value).imp fun _ _ h => by
    rw [ClearsSerialized, h.hart]
    exact id
  flushTlb := .bind (.modify fun _ => id) fun _ => .modify fun _ => id
  flushIcache := .modify fun _ => id

/-- No instruction sets the flag. -/
theorem callFunc_serialized (pc : Reg) (fetch : Decode.InsnFunc × Insn) :
    Keeps ClearsSerialized (callFunc P F fetch.1 fetch.2 pc) := by
  have hprogram (name : InsnName) (xlen : Xlen) :
      Keeps ClearsSerialized ((insnProgram F name xlen fetch.2 pc).run (Act.exec P)) := by
    apply Program.keeps_run fun a ha => (actKeeps_serialized P).exec ha
    rcases uses_ordinary_or_control (handler_family F name _) with huses | huses
    · apply huses.imp
      intro a ha
      cases a with
      | setSerialized => exact ha.elim
      | _ => trivial
    · apply huses.imp
      intro a ha
      cases ha
      all_goals first | rfl | trivial
  obtain ⟨func, insn⟩ := fetch
  cases func with
  | rv32 name => exact hprogram name .rv32
  | rv64 name => exact hprogram name .rv64
  | custom n | illegalInstruction => all_goals exact .throw _

/-! ## CSR instructions -/

/-- A CSR instruction that has been serialized and returns has read its register, and perhaps
written it. -/
theorem run_csrOp_reads {c : Ctx} {write : Ctx → Bool} {new : Ctx → Hart → Reg → Reg} {npc : Reg}
    {m m' : Machine β} (hserialized : m.hart.serialized = true)
    (h : (csrOp write new c).run (Act.exec P) m = .ok npc m') :
    ∃ old mid, getCsr P c.insn.csr m.unserialized = .ok old m.unserialized ∧
      (write c = false ∧ mid = m.unserialized ∨
        write c = true ∧
          setCsr c.insn.csr (new c m.hart old) m.unserialized = .ok () mid) ∧
      m' = { mid with hart := mid.hart.writeXpr c.insn.rd (sextXlen c.xlen old) } := by
  rw [run_csrOp, hserialized, if_neg (by simp)] at h
  cases hrefused : csrRefused c.insn.csr (write c) m.hart.prv with
  | true =>
      rw [hrefused] at h
      cases h
  | false =>
      rw [hrefused] at h
      obtain ⟨old, mid, hget, h⟩ := bind_ok h
      obtain rfl := getCsr_same hget
      cases hwrite : write c with
      | false =>
          rw [hwrite] at h
          cases h
          exact ⟨old, _, hget, .inl ⟨rfl, rfl⟩, rfl⟩
      | true =>
          rw [hwrite] at h
          obtain ⟨_, mid, hset, h⟩ := bind_ok h
          cases h
          exact ⟨old, mid, hget, .inr ⟨rfl, hset⟩, rfl⟩

/-- A CSR instruction that returns has cleared the flag, and has left the counter alone unless
it writes it. -/
theorem csrOp_counter {c : Ctx} {write : Ctx → Bool} {new : Ctx → Hart → Reg → Reg} {npc : Reg}
    {m m' : Machine β} (h : (csrOp write new c).run (Act.exec P) m = .ok npc m') :
    m'.hart.serialized = false ∧
      ((m.hart.serialized && (isCounter c.insn.csr && write c)) = false → SameCounter m m') := by
  cases hserialized : m.hart.serialized with
  | false =>
      rw [run_csrOp, hserialized] at h
      cases h
      exact ⟨hserialized, fun _ => rfl⟩
  | true =>
      obtain ⟨old, mid, -, hmid, rfl⟩ := run_csrOp_reads hserialized h
      have hfields (h : Hart) (value : Reg) :
          (h.writeXpr c.insn.rd value).serialized = h.serialized ∧
            (h.writeXpr c.insn.rd value).minstret = h.minstret := by
        unfold Hart.writeXpr
        split <;> exact ⟨rfl, rfl⟩
      rw [SameCounter, (hfields _ _).1, (hfields _ _).2]
      rcases hmid with ⟨-, rfl⟩ | ⟨hwrite, hset⟩
      · exact ⟨rfl, fun _ => rfl⟩
      · constructor
        · rw [((setCsr_csrFrame _ _).ok hset).hart]
          rfl
        · intro hno
          rw [hwrite, Bool.and_true, Bool.true_and] at hno
          have hkept : SameCounter m.unserialized mid := (setCsr_counter hno _).ok hset
          exact hkept

/-! ## What an instruction does to the count -/

/-- What an instruction does that returns `npc`. -/
structure TallyAfter (fetch : Decode.InsnFunc × Insn) (npc : Reg) (m m' : Machine β) : Prop where
  minstret : (m.hart.serialized && setsCounter fetch m.hart) = false →
    m'.hart.minstret = m.hart.minstret
  retired : m'.retired = m.retired + if npc = pcSerializeBefore then 0 else 1
  serialized : m'.hart.serialized = true → m.hart.serialized = true ∧ isCsrInsn fetch = false
  matched : m'.mmu.matchedTrigger = m.mmu.matchedTrigger

/-- What an instruction does that throws. -/
structure TallyThrown (e : Exn) (m m' : Machine β) : Prop where
  minstret : m'.hart.minstret = m.hart.minstret
  retired : m'.retired = m.retired
  serialized : m'.hart.serialized = true → m.hart.serialized = true
  matched : e.isTrigger = false → m'.mmu.matchedTrigger = m.mmu.matchedTrigger

/-- A handler that returns. -/
theorem callFunc_counts {pc npc : Reg} {fetch : Decode.InsnFunc × Insn} {m m' : Machine β}
    (h : callFunc P F fetch.1 fetch.2 pc m = .ok npc m') :
    ((m.hart.serialized && setsCounter fetch m.hart) = false →
      m'.hart.minstret = m.hart.minstret) ∧
      (m'.hart.serialized = true → m.hart.serialized = true ∧ isCsrInsn fetch = false) := by
  have hclears : m'.hart.serialized = true → m.hart.serialized = true :=
    (callFunc_serialized pc fetch).ok h
  cases hcsr : isCsrInsn fetch with
  | false =>
      refine ⟨fun _ => (callFunc_counter pc ?_).ok h, fun hset => ⟨hclears hset, rfl⟩⟩
      rw [hcsr]
      rfl
  | true =>
      have hprogram (xlen : Xlen) (name : InsnName) (hfunc : fetch.1 = insnFunc xlen name) :
          m'.hart.serialized = false ∧
            ((m.hart.serialized && setsCounter fetch m.hart) = false →
              m'.hart.minstret = m.hart.minstret) := by
        obtain ⟨func, insn⟩ := fetch
        obtain rfl : func = insnFunc xlen name := hfunc
        have hname : isCsrOp name = true := by cases xlen <;> exact hcsr
        rw [callFunc_insnFunc, insnProgram] at h
        obtain ⟨write, new, hhandler, hoperand⟩ := handler_csrOp F hname ⟨xlen, insn, pc, _⟩
        rw [hhandler] at h
        obtain ⟨hcleared, hkept⟩ := csrOp_counter h
        refine ⟨hcleared, fun hno => hkept ?_⟩
        have hsets : setsCounter (insnFunc xlen name, insn) m.hart =
            (isCounter insn.csr && (csrOperand insn m.hart 0 name).isSome) := by
          cases xlen <;> rfl
        rw [hsets, hoperand m.hart 0] at hno
        rw [← hno]
        congr 2
        split
        · assumption
        · rename_i hwrite
          simpa using hwrite
      have hboth : m'.hart.serialized = false ∧
          ((m.hart.serialized && setsCounter fetch m.hart) = false →
            m'.hart.minstret = m.hart.minstret) := by
        cases hfunc : fetch.1 with
        | rv32 name => exact hprogram .rv32 name hfunc
        | rv64 name => exact hprogram .rv64 name hfunc
        | custom n | illegalInstruction =>
            all_goals
              unfold isCsrInsn at hcsr
              rw [hfunc] at hcsr
              cases hcsr
      refine ⟨hboth.2, fun hset => ?_⟩
      rw [hboth.1] at hset
      cases hset

/-- **What an instruction does to the count.** -/
theorem executeInsn_tally (pc : Reg) (fetch : Decode.InsnFunc × Insn) (m : Machine β) :
    Ensures (executeInsn P F pc fetch) m (fun npc => TallyAfter fetch npc m)
      fun e => TallyThrown e m := by
  have hmatched := executeInsn_matched (P := P) (F := F) pc fetch
  have hevents := ensures_executeInsn_events (P := P) (F := F) pc fetch m
  refine ensures_iff.mpr ⟨fun npc m' h => ?_, fun e m' h => ?_⟩
  · have hcall := h
    rw [run_executeInsn] at hcall
    cases hrun : callFunc P F fetch.1 fetch.2 pc m with
    | error e mid =>
        rw [hrun] at hcall
        cases hcall
    | ok npc' mid =>
        rw [hrun] at hcall
        cases hcall
        obtain ⟨hminstret, hserialized⟩ := callFunc_counts hrun
        refine ⟨hminstret, ?_, hserialized, hmatched.ok h⟩
        rw [Machine.retired, hevents.ok h, List.countP_append]
        change m.retired + _ = _
        unfold retiredAs
        split <;> rfl
  · have hkept := executeInsn_throws_hartKept h
    refine ⟨?_, ?_, ?_, fun he => hmatched.error h (by simp [he])⟩
    · rw [hkept.hart]
    · rw [Machine.retired, hevents.error h]
      rfl
    · have hcall := h
      rw [run_executeInsn] at hcall
      cases hrun : callFunc P F fetch.1 fetch.2 pc m with
      | error e' mid =>
          rw [hrun] at hcall
          cases hcall
          exact (callFunc_serialized pc fetch).error hrun
      | ok npc mid =>
          rw [hrun] at hcall
          cases hcall

/-! ## The count in a round -/

/-- The count in a round: `b` turns are left of `n`, at most `N` instructions are to be retired
altogether, and the counter started from `c`.  With `J`, nothing is pending when a CSR instruction
may proceed. -/
structure Within (J : Prop) (c : Reg) (N n b : ℕ) (s : Machine β × Locals) : Prop where
  budget : s.2.instret + b ≤ n
  quota : s.1.retired + n ≤ N + s.2.instret
  count : s.1.hart.minstret + BitVec.ofNat 64 s.2.instret = c + BitVec.ofNat 64 s.1.retired
  fresh : J → s.1.hart.serialized = true → s.2.instret = 0

/-- The count between the rounds, with `left` instructions left of the call. -/
structure Settled (c : Reg) (N left : ℕ) (m : Machine β) : Prop where
  quota : m.retired + left ≤ N
  count : m.hart.minstret = c + BitVec.ofNat 64 m.retired
  unmatched : m.mmu.matchedTrigger = none

/-- The count after an instruction that has returned `npc`. -/
structure Executed (J : Prop) (c : Reg) (N n b : ℕ) (npc : Reg) (s : Machine β × Locals) :
    Prop where
  budget : s.2.instret + 1 + b ≤ n
  quota : s.1.retired + n ≤ N + s.2.instret + if npc = pcSerializeBefore then 0 else 1
  count : s.1.hart.minstret + BitVec.ofNat 64 (s.2.instret +
    if npc = pcSerializeBefore then 0 else 1) = c + BitVec.ofNat 64 s.1.retired
  fresh : J → s.1.hart.serialized = false

section Rounds

variable {J J' : Prop} {c : Reg} {N n b left : ℕ} {npc : Reg} {m m' : Machine β} {l : Locals}

namespace Within

theorem of_same (h : Within J c N n b (m, l)) (hminstret : m'.hart.minstret = m.hart.minstret)
    (hretired : m'.retired = m.retired)
    (hserialized : m'.hart.serialized = true → m.hart.serialized = true) :
    Within J c N n b (m', l) where
  budget := h.budget
  quota := by
    change m'.retired + n ≤ _
    rw [hretired]
    exact h.quota
  count := by
    change m'.hart.minstret + _ = c + BitVec.ofNat 64 m'.retired
    rw [hminstret, hretired]
    exact h.count
  fresh hJ hset := h.fresh hJ (hserialized hset)

theorem same (h : Within J c N n b (m, l)) (hsame : SameTally m m') : Within J c N n b (m', l) :=
  h.of_same hsame.minstret hsame.retired hsame.serialized.symm.trans

theorem mono (h : Within J c N n b (m, l)) {b' : ℕ} (hb : b' ≤ b) : Within J c N n b' (m, l) :=
  ⟨(Nat.add_le_add_left hb _).trans h.budget, h.quota, h.count, h.fresh⟩

theorem imp {s : Machine β × Locals} (h : Within J c N n b s) (hJ : J' → J) :
    Within J' c N n b s :=
  ⟨h.budget, h.quota, h.count, fun h' => h.fresh (hJ h')⟩

theorem retired_le (h : Within J c N n b (m, l)) : m.retired ≤ N := by
  have hbudget := h.budget
  have hquota := h.quota
  dsimp only at hbudget hquota
  omega

/-- The end of a round. -/
theorem settled (h : Within J c N n b (m, l)) (hmatched : m.mmu.matchedTrigger = none) :
    Settled c N (n - l.instret) { m with hart := { m.hart with
      minstret := m.hart.minstret + BitVec.ofNat 64 l.instret } } where
  quota := by
    have hbudget := h.budget
    have hquota := h.quota
    dsimp only at hbudget hquota
    change m.retired + (n - l.instret) ≤ N
    omega
  count := h.count
  unmatched := hmatched

/-- A trap cuts the round short. -/
theorem cut (h : Within J c N n b (m, l)) : Within J c N l.instret 0 (m, l) :=
  ⟨le_rfl, Nat.add_le_add_right h.retired_le _, h.count, h.fresh⟩

end Within

namespace Settled

theorem same (h : Settled c N left m) (hsame : SameTally m m') : Settled c N left m' where
  quota := by
    rw [hsame.retired]
    exact h.quota
  count := by
    rw [hsame.minstret, hsame.retired]
    exact h.count
  unmatched := hsame.matched.trans h.unmatched

/-- The start of a round. -/
theorem within (h : Settled c N left m) (J : Prop) (pc : Reg) :
    Within J c N left left (m, ⟨pc, 0⟩) where
  budget := (Nat.zero_add left).le
  quota := h.quota
  count := by
    rw [← h.count]
    exact BitVec.add_zero _
  fresh _ _ := rfl

end Settled

namespace Executed

theorem retired_le (h : Executed J c N n b npc (m, l)) : m.retired ≤ N := by
  have hbudget := h.budget
  have hquota := h.quota
  dsimp only at hbudget hquota
  split at hquota
  all_goals omega

/-- The instruction has been counted. -/
theorem counted (h : Executed J c N n b npc (m, l)) (hnpc : npc ≠ pcSerializeBefore) (pc : Reg)
    (hsame : SameTally m m') : Within J c N n b (m', ⟨pc, l.instret + 1⟩) := by
  have hquota := h.quota
  have hcount := h.count
  rw [if_neg hnpc] at hquota hcount
  have hwithin : Within J c N n b (m, ⟨pc, l.instret + 1⟩) := by
    refine ⟨h.budget, hquota, hcount, fun hJ hset => ?_⟩
    have hcleared : m.hart.serialized = false := h.fresh hJ
    cases hcleared.symm.trans hset
  exact hwithin.same hsame

/-- The instruction is to be serialized and has not been counted. -/
theorem sentBack (h : Executed J c N n b npc (m, l)) (hnpc : npc = pcSerializeBefore) (pc : Reg) :
    Within False c N n b
      ({ m with hart := { m.hart with serialized := true } }, ⟨pc, l.instret⟩) := by
  have hbudget := h.budget
  have hquota := h.quota
  have hcount := h.count
  dsimp only at hbudget
  rw [if_pos hnpc, Nat.add_zero] at hquota hcount
  exact ⟨(by omega : l.instret + b ≤ n), hquota, hcount, fun hno => hno.elim⟩

/-- `advance_pc` after an instruction.  It leaves the loop for a sentinel alone. -/
theorem advance (h : Executed J c N n b npc (m, l)) :
    Ensures advancePc (m, { l with pc := npc })
      (fun left s => Within (J ∧ left = false) c N n b s ∧ SameMatched m s.1 ∧
        (left = true → npc = pcSerializeBefore ∨ npc = pcSerializeAfter))
      fun e s => e = .abort ∧ s.1.retired ≤ N := by
  apply ensures_advancePc
  · intro hbefore
    exact ⟨(h.sentBack hbefore _).imp (by simp), rfl, fun _ => .inl hbefore⟩
  · intro hafter
    have hne : npc ≠ pcSerializeBefore := by
      change npc = pcSerializeAfter at hafter
      rw [hafter]
      decide
    have hcounted := h.counted hne m.hart.pc (Std.Refl.refl m)
    exact ⟨hcounted.imp And.left, rfl, fun _ => .inr hafter⟩
  · intro _ _ _
    exact ⟨rfl, h.retired_le⟩
  · intro hvalid
    have hne : npc ≠ pcSerializeBefore := by
      intro hbefore
      change invalidPc npc = false at hvalid
      rw [hbefore, show invalidPc pcSerializeBefore = true by decide] at hvalid
      cases hvalid
    have hsame : SameTally m { m with hart := { m.hart with pc := npc } } := ⟨rfl, rfl, rfl, rfl⟩
    have hcounted := h.counted hne npc hsame
    exact ⟨hcounted.imp And.left, rfl, by simp⟩

end Executed

/-- An instruction that has returned.  Where it writes the counter, the count starts anew. -/
theorem Within.executed {fetch : Decode.InsnFunc × Insn} (h : Within J c N n (b + 1) (m, l))
    (hafter : TallyAfter fetch npc m m')
    (hserializes : J → m.hart.serialized = true → isCsrInsn fetch = true) :
    ∃ c', Executed J c' N n b npc (m', l) ∧
      ((m.hart.serialized && setsCounter fetch m.hart) = false → c' = c) := by
  have hbudget := h.budget
  have hquota := h.quota
  have hcount := h.count
  dsimp only at hbudget hquota hcount
  have hexecuted (c' : Reg) (hcount' : m'.hart.minstret + BitVec.ofNat 64 (l.instret +
      if npc = pcSerializeBefore then 0 else 1) = c' + BitVec.ofNat 64 m'.retired) :
      Executed J c' N n b npc (m', l) := by
    refine ⟨by dsimp only; omega, ?_, hcount', fun hJ => ?_⟩
    · dsimp only
      rw [hafter.retired]
      omega
    · cases hset : m'.hart.serialized with
      | false => rfl
      | true =>
          obtain ⟨hserialized, hother⟩ := hafter.serialized hset
          rw [hserializes hJ hserialized] at hother
          cases hother
  cases hsets : m.hart.serialized && setsCounter fetch m.hart with
  | false =>
      refine ⟨c, hexecuted c ?_, fun _ => rfl⟩
      rw [hafter.retired, hafter.minstret hsets, BitVec.ofNat_add, BitVec.ofNat_add,
        ← BitVec.add_assoc, hcount, BitVec.add_assoc]
  | true => exact ⟨_, hexecuted _ (BitVec.sub_add_cancel _ _).symm, by simp⟩

end Rounds

/-! ## The count at a point -/

/-- The count where an exception is caught.  If a match is remembered then a turn is left to run
the instruction again. -/
def CaughtWithin (J : Prop) (c : Reg) (N n : ℕ) (s : Machine β × Locals) : Exn → Prop
  | .abort => s.1.retired ≤ N
  | .trap _ => Within J c N n 0 s ∧ s.1.mmu.matchedTrigger = none
  | .trigger _ => Within J c N n 0 s ∧
      (s.1.mmu.matchedTrigger = none ∨ Within J c N n 1 s)

theorem CaughtWithin.of_within {J : Prop} {c : Reg} {N n b : ℕ} {m : Machine β} {l : Locals}
    (h : Within J c N n b (m, l)) (hmatched : m.mmu.matchedTrigger = none) (e : Exn) :
    CaughtWithin J c N n (m, l) e := by
  cases e with
  | abort => exact h.retired_le
  | trap t => exact ⟨h.mono (Nat.zero_le b), hmatched⟩
  | trigger t => exact ⟨h.mono (Nat.zero_le b), .inl hmatched⟩

/-- The instruction at the point has thrown. -/
theorem CaughtWithin.of_thrown {J : Prop} {c : Reg} {N n b : ℕ} {m m' : Machine β} {l : Locals}
    {e : Exn} (h : Within J c N n (b + 1) (m, l)) (hmatched : m.mmu.matchedTrigger = none)
    (hthrown : TallyThrown e m m') : CaughtWithin J c N n (m', l) e := by
  have hwithin : Within J c N n (b + 1) (m', l) :=
    h.of_same hthrown.minstret hthrown.retired hthrown.serialized
  cases e with
  | abort => exact hwithin.retired_le
  | trap t => exact ⟨hwithin.mono (Nat.zero_le _), (hthrown.matched rfl).trans hmatched⟩
  | trigger t => exact ⟨hwithin.mono (Nat.zero_le _), .inr (hwithin.mono (by omega))⟩

namespace Point

/-- The count at a point. -/
def Tallied (J : Prop) (c : Reg) (N : ℕ) : Point β → Prop
  | .idle m => Settled c N 0 m
  | .head n m => Settled c N n m
  | .slow n turns s | .fast n turns _ s => Within J c N n turns s ∧ s.1.mmu.matchedTrigger = none
  | .execute (.slow turns) n _ s | .execute (.fast turns _) n _ s =>
    Within J c N n (turns + 1) s ∧ s.1.mmu.matchedTrigger = none
  | .execute (.restart _) n _ s => Within J c N n 1 s
  | .caught n e s => CaughtWithin J c N n s e
  | .action n _ s => Within J c N n 0 s ∧ s.1.mmu.matchedTrigger = none
  | .stopped _ m => m.retired ≤ N

/-- The instruction at the point is counted if it is retired.  In the catch block of a trigger it
returns no sentinel; in the fast loop the sentinel that sends it back is no tag. -/
def CountsAll (P : Platform β) (F : SoftFloat) : Point β → Prop
  | .execute (.restart _) _ fetch (m, l) =>
    Ensures (executeInsn P F l.pc fetch) m
      (fun npc _ => npc ≠ pcSerializeBefore ∧ npc ≠ pcSerializeAfter) fun _ _ => True
  | .execute (.fast _ i) _ fetch (m, l) =>
    Ensures (executeInsn P F l.pc fetch) m (fun npc m' => npc = pcSerializeBefore →
      ∀ hlast : i.val + 1 < 1024, (m'.mmu.icache ⟨i.val + 1, hlast⟩).tag ≠ pcSerializeBefore)
      fun _ _ => True
  | _ => True

instance (P : Platform β) (F : SoftFloat) : (p : Point β) → Decidable (p.CountsAll P F)
  | .execute (.restart _) _ _ (_, _) => inferInstanceAs (Decidable (Ensures _ _ _ _))
  | .execute (.fast _ _) _ _ (_, _) => inferInstanceAs (Decidable (Ensures _ _ _ _))
  | .execute (.slow _) _ _ (_, _) => .isTrue trivial
  | .idle _ | .head .. | .slow .. | .fast .. | .caught .. | .action .. | .stopped .. =>
    .isTrue trivial

/-- The instruction that is executed while the flag for serialization is set is a CSR
instruction. -/
def SerializesNext : Point β → Prop
  | .execute _ _ fetch (m, _) => m.hart.serialized = true → isCsrInsn fetch = true
  | _ => True

/-- The instruction at the point is retired and writes the counter. -/
def setsCounter (P : Platform β) (F : SoftFloat) : Point β → Bool
  | .execute _ _ fetch (m, l) => m.hart.serialized && Riscv.setsCounter fetch m.hart &&
    Succeeds (executeInsn P F l.pc fetch m)
  | _ => false

section Next

variable {J : Prop} {c : Reg} {N n b : ℕ} {npc : Reg} {m : Machine β} {l : Locals}

theorem tallied_ofRound {J' : Prop} (h : Within J' c N n b (m, l))
    (hmatched : m.mmu.matchedTrigger = none) :
    (ofRound (endRound n l.instret m)).Tallied J c N :=
  h.settled hmatched

theorem tallied_slowAfter (h : Executed J c N n b npc (m, l))
    (hmatched : m.mmu.matchedTrigger = none) :
    Ensures (slowAfter npc) (m, l)
      (fun goesOn s => Within (J ∧ goesOn = true) c N n b s ∧ s.1.mmu.matchedTrigger = none)
      fun e s => CaughtWithin J c N n s e := by
  refine Ensures.bind (h.advance.imp ?_ ?_).bind
  · rintro left ⟨m', l'⟩ ⟨hwithin, hsame, -⟩
    have hmatched' : m'.mmu.matchedTrigger = none := Eq.trans hsame hmatched
    refine Ensures.ite (fun _ => ⟨hwithin.imp (by simp), hmatched'⟩) fun hleft => ?_
    have hstays : J → J ∧ left = false := fun hJ => ⟨hJ, by simpa using hleft⟩
    have hgoesOn : Within (J ∧ true = true) c N n b (m', l') ∧ m'.mmu.matchedTrigger = none :=
      ⟨hwithin.imp fun hJ => hstays hJ.1, hmatched'⟩
    refine Ensures.ite (fun _ => ?_) fun _ => hgoesOn
    have hfinish := finishStep_tally (β := β)
    refine Ensures.bind (ensures_lift.mpr (ensures_iff.mpr ⟨?_, ?_⟩))
    · intro _ m'' hrun
      have htally := hfinish.ok hrun
      exact ⟨(hwithin.same htally).imp (by simp), htally.matched.trans hmatched'⟩
    · intro e m'' hrun
      have htally := hfinish.error hrun
      exact .of_within ((hwithin.same htally).imp hstays) (htally.matched.trans hmatched') e
  · rintro e s ⟨rfl, hretired⟩
    exact hretired

theorem tallied_fastAfter {i : Fin 1024} (h : Executed J c N n b npc (m, l))
    (hmatched : m.mmu.matchedTrigger = none)
    (htag : npc = pcSerializeBefore →
      ∀ hlast : i.val + 1 < 1024, (m.mmu.icache ⟨i.val + 1, hlast⟩).tag ≠ pcSerializeBefore) :
    Ensures (fastAfter P n i npc) (m, l)
      (fun at? s => Within (J ∧ at?.isSome = true) c N n b s ∧ s.1.mmu.matchedTrigger = none)
      fun e s => CaughtWithin J c N n s e := by
  unfold fastAfter
  apply Ensures.bind
  change Ensures (dite _ _ _) (m, { l with pc := npc }) _ _
  have hadvance := h.advance
  have hleave : Ensures (do
      if ← advancePc then return none else return some none : S β (Option (Option (Fin 1024))))
      (m, { l with pc := npc })
      (fun at? s => Within (J ∧ at?.isSome = true) c N n b s ∧ s.1.mmu.matchedTrigger = none)
      fun e s => CaughtWithin J c N n s e := by
    refine Ensures.bind (hadvance.imp ?_ ?_)
    · rintro left s ⟨hwithin, hsame, -⟩
      have hmatched' : s.1.mmu.matchedTrigger = none := Eq.trans hsame hmatched
      refine Ensures.ite (fun _ => ⟨hwithin.imp (by simp), hmatched'⟩) fun hleft => ?_
      exact ⟨hwithin.imp fun hJ => ⟨hJ.1, by simpa using hleft⟩, hmatched'⟩
    · rintro e s ⟨rfl, hretired⟩
      exact hretired
  split
  · rename_i hlast
    apply Ensures.bind
    refine Ensures.ite (fun _ => ?_) fun hhit => ?_
    · -- The label `miss`.
      refine Ensures.bind (hadvance.imp ?_ ?_)
      · rintro left ⟨m', l'⟩ ⟨hwithin, hsame, -⟩
        have hmatched' : m'.mmu.matchedTrigger = none := Eq.trans hsame hmatched
        refine Ensures.ite (fun _ => ⟨hwithin.imp (by simp), hmatched'⟩) fun hleft => ?_
        have hstays : J → J ∧ left = false := fun hJ => ⟨hJ, by simpa using hleft⟩
        refine Ensures.ite (fun _ => ?_) fun _ => ⟨hwithin.imp fun hJ => hstays hJ.1, hmatched'⟩
        have hrefill := (refillKeeps_tally P).refillIcache l'.pc ⟨i.val + 1, hlast⟩
        refine Ensures.bind (ensures_lift.mpr (ensures_iff.mpr ⟨?_, ?_⟩))
        · intro _ m'' hrun
          have htally := hrefill.ok hrun
          exact ⟨(hwithin.same htally).imp fun hJ => hstays hJ.1, htally.matched.trans hmatched'⟩
        · intro e m'' hrun
          have htally := hrefill.error hrun
          exact .of_within ((hwithin.same htally).imp hstays) (htally.matched.trans hmatched') e
      · rintro e s ⟨rfl, hretired⟩
        exact hretired
    · refine Ensures.ite (fun _ => hleave) fun _ => ?_
      have hne : npc ≠ pcSerializeBefore := fun hbefore =>
        htag hbefore hlast ((not_not.mp hhit).trans hbefore)
      have hsame : SameTally m { m with hart := { m.hart with pc := npc } } :=
        ⟨rfl, rfl, rfl, rfl⟩
      have hcounted := h.counted hne npc hsame
      exact ⟨hcounted.imp And.left, hmatched⟩
  · exact hleave

/-- In the catch block of a trigger the instruction returns no sentinel. -/
theorem tallied_restartAfter (h : Executed J c N n b npc (m, l)) (hbefore : npc ≠ pcSerializeBefore)
    (hafter : npc ≠ pcSerializeAfter) :
    Ensures (restartAfter npc) (m, l)
      (fun left s => left = false ∧ Within J c N n b s ∧ s.1.mmu.matchedTrigger = none)
      fun _ s => s.1.retired ≤ N := by
  refine Ensures.bind (h.advance.imp ?_ fun _ _ hs => hs.2).bind
  rintro left ⟨m', l'⟩ ⟨hwithin, -, hleaves⟩
  have hstays : left = false := by
    rw [Bool.eq_false_iff]
    intro hleft
    rcases hleaves hleft with hnpc | hnpc
    · exact hbefore hnpc
    · exact hafter hnpc
  refine Ensures.ite (fun hleft => ?_) fun _ => ?_
  · rw [hstays] at hleft
    cases hleft
  · have hkept := hwithin.imp fun hJ : J => ⟨hJ, hstays⟩
    exact ⟨rfl, ⟨hkept.budget, hkept.quota, hkept.count, hkept.fresh⟩, rfl⟩

theorem tallied_returned {site : Site} {fetch : Decode.InsnFunc × Insn} {m' : Machine β}
    (h : (Point.execute site n fetch (m, l)).Tallied J c N)
    (hcounts : (Point.execute site n fetch (m, l)).CountsAll P F)
    (hserializes : J → m.hart.serialized = true → isCsrInsn fetch = true)
    (hrun : executeInsn P F l.pc fetch m = .ok npc m') :
    ∃ c', (returned P n npc (m', l) site).Tallied J c' N ∧
      ((m.hart.serialized && Riscv.setsCounter fetch m.hart) = false → c' = c) := by
  have hafter := (executeInsn_tally l.pc fetch m).ok hrun
  cases site with
  | slow turns =>
      obtain ⟨hwithin, hmatched⟩ := h
      obtain ⟨c', hexecuted, hc⟩ := hwithin.executed hafter hserializes
      refine ⟨c', ?_, hc⟩
      rw [returned]
      rcases (tallied_slowAfter hexecuted (hafter.matched.trans hmatched)).cases with
        ⟨goesOn, s, hslow, hwithin', hmatched'⟩ | ⟨e, s, hslow, hcaught⟩
      · rw [hslow]
        cases goesOn with
        | true => exact ⟨hwithin'.imp fun hJ => ⟨hJ, rfl⟩, hmatched'⟩
        | false => exact tallied_ofRound hwithin' hmatched'
      · rw [hslow]
        exact hcaught
  | fast turns i =>
      obtain ⟨hwithin, hmatched⟩ := h
      obtain ⟨c', hexecuted, hc⟩ := hwithin.executed hafter hserializes
      refine ⟨c', ?_, hc⟩
      rw [returned]
      have htag := Ensures.ok hcounts hrun
      rcases (tallied_fastAfter hexecuted (hafter.matched.trans hmatched) htag).cases with
        ⟨at?, s, hfast, hwithin', hmatched'⟩ | ⟨e, s, hfast, hcaught⟩
      · rw [hfast]
        cases at? with
        | some i' => exact ⟨hwithin'.imp fun hJ => ⟨hJ, rfl⟩, hmatched'⟩
        | none => exact tallied_ofRound hwithin' hmatched'
      · rw [hfast]
        exact hcaught
  | restart t =>
      have hwithin : Within J c N n 1 (m, l) := h
      obtain ⟨c', hexecuted, hc⟩ := hwithin.executed hafter hserializes
      refine ⟨c', ?_, hc⟩
      obtain ⟨hbefore, hafter'⟩ := Ensures.ok hcounts hrun
      rw [returned]
      rcases (tallied_restartAfter hexecuted hbefore hafter').cases with
        ⟨left, s, hrestart, rfl, hwithin', hmatched'⟩ | ⟨e, s, hrestart, hretired⟩
      · rw [hrestart]
        exact ⟨hwithin', hmatched'⟩
      · rw [hrestart]
        exact hretired

/-- What goes on between the instructions keeps the count. -/
theorem tallied_between {p : Point β} (h : p.Tallied J c N)
    (hbetween : ∀ site n fetch s, p ≠ .execute site n fetch s) : (p.next P F).Tallied J c N := by
  cases p with
  | idle m => exact h
  | stopped e m => exact h
  | execute site n fetch s => exact absurd rfl (hbetween site n fetch s)
  | head n m =>
      cases n with
      | zero => exact h
      | succ n =>
          have hwithin := h.within J m.hart.pc
          have hinterrupt : Ensures takeInterrupt m (fun _ m' => m' = m) fun _ m' => m' = m := by
            change Ensures (if enabledInterrupts m.hart ≠ 0 then throwTrap _ else pure ()) m _ _
            exact Ensures.ite (fun _ => rfl) fun _ => rfl
          rw [Point.next]
          rcases hinterrupt.cases with ⟨_, _, hrun, rfl⟩ | ⟨e, _, hrun, rfl⟩
          · rw [hrun]
            dsimp only
            split
            all_goals exact ⟨hwithin, h.unmatched⟩
          · rw [hrun]
            exact .of_within hwithin h.unmatched e
  | slow n turns s =>
      obtain ⟨m, l⟩ := s
      obtain ⟨hwithin, hmatched⟩ := h
      cases turns with
      | zero => exact tallied_ofRound hwithin hmatched
      | succ turns =>
          have hfetch : Ensures (slowFetch P) (m, l) (fun _ s => SameTally m s.1 ∧ s.2 = l)
              fun _ s => SameTally m s.1 ∧ s.2 = l := by
            have hbegin : SameTally m m.beginTurn := by
              unfold Machine.beginTurn
              split
              · exact ⟨rfl, rfl, rfl, rfl⟩
              · exact Std.Refl.refl m
            have hload := (refillKeeps_tally P).loadInsn l.pc
            rw [Ensures, run_slowFetch]
            apply ensures_lift.mpr
            exact ensures_iff.mpr ⟨fun _ _ hrun => ⟨IsTrans.trans _ _ _ hbegin (hload.ok hrun), rfl⟩,
              fun _ _ hrun => ⟨IsTrans.trans _ _ _ hbegin (hload.error hrun), rfl⟩⟩
          rw [Point.next]
          rcases hfetch.cases with ⟨_, ⟨m', _⟩, hrun, hsame, rfl⟩ | ⟨e, ⟨m', _⟩, hrun, hsame, rfl⟩
          · rw [hrun]
            exact ⟨hwithin.same hsame, hsame.matched.trans hmatched⟩
          · rw [hrun]
            exact .of_within (hwithin.same hsame) (hsame.matched.trans hmatched) e
  | fast n turns at? s =>
      obtain ⟨m, l⟩ := s
      obtain ⟨hwithin, hmatched⟩ := h
      cases turns with
      | zero => exact tallied_ofRound hwithin hmatched
      | succ turns =>
          have hlookup : Ensures (fastLookup P at?) (m, l) (fun _ s => SameTally m s.1 ∧ s.2 = l)
              fun _ s => SameTally m s.1 ∧ s.2 = l := by
            cases at? with
            | some i => exact ⟨Std.Refl.refl m, rfl⟩
            | none =>
                have haccess := (refillKeeps_tally P).accessIcache l.pc
                change Ensures (lift (accessIcache P l.pc) >>= fun _ => pure (icacheIndex l.pc))
                  (m, l) _ _
                apply Ensures.bind
                apply ensures_lift.mpr
                exact ensures_iff.mpr ⟨fun _ _ hrun => ⟨haccess.ok hrun, rfl⟩,
                  fun _ _ hrun => ⟨haccess.error hrun, rfl⟩⟩
          rw [Point.next]
          rcases hlookup.cases with ⟨_, ⟨m', _⟩, hrun, hsame, rfl⟩ | ⟨e, ⟨m', _⟩, hrun, hsame, rfl⟩
          · rw [hrun]
            exact ⟨hwithin.same hsame, hsame.matched.trans hmatched⟩
          · rw [hrun]
            exact .of_within (hwithin.same hsame) (hsame.matched.trans hmatched) e
  | caught n e s =>
      obtain ⟨m, l⟩ := s
      cases e with
      | abort => exact h
      | trap t =>
          obtain ⟨hwithin, hmatched⟩ := h
          have hcatch := catchTrap_tally (β := β) t l.pc
          rw [Point.next]
          cases hrun : catchTrap t l.pc m with
          | ok _ m' =>
              have hsame := hcatch.ok hrun
              exact tallied_ofRound (hwithin.cut.same hsame) (hsame.matched.trans hmatched)
          | error e m' =>
              have hsame := hcatch.error hrun
              exact (hwithin.same hsame).retired_le
      | trigger t =>
          obtain ⟨hwithin, hremembered⟩ := h
          rw [Point.next]
          by_cases hmatched : m.mmu.matchedTrigger.isSome = true
          · rw [if_pos hmatched]
            have hturn : Within J c N n 1 (m, l) := by
              rcases hremembered with hnone | hturn
              · rw [hnone] at hmatched
                cases hmatched
              · exact hturn
            have hload := (refillKeeps_tally P).loadInsn l.pc
            cases hrun : loadInsn P l.pc m with
            | ok fetch m' => exact hturn.same (hload.ok hrun)
            | error e m' => exact (hturn.same (hload.error hrun)).retired_le
          · rw [if_neg hmatched]
            exact ⟨hwithin, by simpa using hmatched⟩
  | action n t s =>
      obtain ⟨m, l⟩ := s
      obtain ⟨hwithin, hmatched⟩ := h
      rw [Point.next]
      rcases (triggerAction_tally t m l).cases with
        ⟨_, ⟨m', _⟩, hrun, hsame, rfl⟩ | ⟨e, ⟨m', _⟩, hrun, hsame, rfl⟩
      · rw [hrun]
        exact tallied_ofRound (hwithin.same hsame) (hsame.matched.trans hmatched)
      · rw [hrun]
        exact (hwithin.same hsame).retired_le

/-- **A step inside of a call keeps the count.**  Only an instruction that writes the counter
starts it anew. -/
theorem tallied_next {p : Point β} (h : p.Tallied J c N) (hcounts : p.CountsAll P F)
    (hserializes : J → p.SerializesNext) :
    ∃ c', (p.next P F).Tallied J c' N ∧ (p.setsCounter P F = false → c' = c) := by
  cases p with
  | execute site n fetch s =>
      obtain ⟨m, l⟩ := s
      rcases (executeInsn_tally (P := P) (F := F) l.pc fetch m).cases with
        ⟨npc, m', hrun, -⟩ | ⟨e, m', hrun, hthrown⟩
      · obtain ⟨c', h', hc⟩ := tallied_returned h hcounts hserializes hrun
        rw [Point.next, hrun]
        refine ⟨c', h', fun hno => hc ?_⟩
        rw [setsCounter, hrun] at hno
        simpa [Succeeds] using hno
      · refine ⟨c, ?_, fun _ => rfl⟩
        rw [Point.next, hrun]
        cases site with
        | slow | fast => all_goals exact .of_thrown h.1 h.2 hthrown
        | restart t =>
            have hwithin : Within J c N n 1 (m, l) := h
            change m'.retired ≤ N
            rw [hthrown.retired]
            exact hwithin.retired_le
  | idle | head | slow | fast | caught | action | stopped =>
      all_goals exact ⟨c, tallied_between h (by simp), fun _ => rfl⟩

end Next

/-! ## What the count says -/

/-- The counter, with what has been counted in the round. -/
def counter : Point β → Reg
  | .idle m | .head _ m | .stopped _ m => m.hart.minstret
  | .slow _ _ s | .fast _ _ _ s | .execute _ _ _ s | .caught _ _ s | .action _ _ s =>
    s.1.hart.minstret + BitVec.ofNat 64 s.2.instret

/-- An exception that nobody handles. -/
def isAborted : Point β → Bool
  | .stopped .. | .caught _ .abort _ => true
  | _ => false

/-- The round has not counted more than it may, even if it counts the instruction at the point. -/
def InBudget : Point β → Prop
  | .execute _ n _ s => s.2.instret < n
  | .slow n _ s | .fast n _ _ s | .action n _ s | .caught n (.trap _) s
  | .caught n (.trigger _) s => s.2.instret ≤ n
  | _ => True

section Tallied

variable {J : Prop} {c : Reg} {N : ℕ} {p : Point β}

theorem Tallied.retired_le (h : p.Tallied J c N) : p.machine.retired ≤ N := by
  cases p with
  | idle m | head n m => all_goals exact (Nat.le_add_right _ _).trans h.quota
  | stopped e m => exact h
  | slow n turns s | fast n turns at? s | action n t s => all_goals exact h.1.retired_le
  | execute site n fetch s =>
      cases site with
      | slow turns | fast turns i => all_goals exact h.1.retired_le
      | restart t => exact Within.retired_le h
  | caught n e s =>
      cases e with
      | abort => exact h
      | trap t | trigger t => all_goals exact h.1.retired_le

theorem Tallied.inBudget (h : p.Tallied J c N) : p.InBudget := by
  cases p with
  | idle m | head n m | stopped e m => all_goals trivial
  | slow n turns s | fast n turns at? s | action n t s =>
      all_goals exact (Nat.le_add_right _ _).trans h.1.budget
  | execute site n fetch s =>
      cases site with
      | slow turns | fast turns i =>
          all_goals exact (Nat.lt_add_of_pos_right (Nat.succ_pos turns)).trans_le h.1.budget
      | restart t => exact (Nat.lt_succ_self _).trans_le (Within.budget h)
  | caught n e s =>
      cases e with
      | abort => trivial
      | trap t | trigger t => all_goals exact h.1.budget

theorem Tallied.counter_eq (h : p.Tallied J c N) (halive : p.isAborted = false) :
    p.counter = c + BitVec.ofNat 64 p.machine.retired := by
  cases p with
  | idle m | head n m => all_goals exact h.count
  | stopped e m => cases halive
  | slow n turns s | fast n turns at? s | action n t s => all_goals exact h.1.count
  | execute site n fetch s =>
      cases site with
      | slow turns | fast turns i => all_goals exact h.1.count
      | restart t => exact Within.count h
  | caught n e s =>
      cases e with
      | abort => cases halive
      | trap t | trigger t => all_goals exact h.1.count

end Tallied

end Point

/-! ## Runs -/

/-- The count starts anew at the head of a round. -/
theorem Settled.start {m : Machine β} (h : m.mmu.matchedTrigger = none) (left : ℕ) :
    Settled (m.hart.minstret - BitVec.ofNat 64 m.retired) (m.retired + left) left m :=
  ⟨le_rfl, (BitVec.sub_add_cancel _ _).symm, h⟩

/-- A step of the hart keeps the count, or lets it start anew. -/
theorem tallied_step {J : Prop} {p p' : Point β} (hstep : HartStep P F p p')
    (h : ∃ c N, p.Tallied J c N) (hcounts : p.CountsAll P F) (hserializes : J → p.SerializesNext) :
    ∃ c N, p'.Tallied J c N := by
  obtain ⟨c, N, h⟩ := h
  cases hstep with
  | @method m m' hcall =>
      have hsame : SameMatched m m' := hcall.keeps setCsr_matched controlKeeps_matched.takeTrap
        controlKeeps_matched.enterDebugMode
      exact ⟨_, _, Settled.start (Eq.trans hsame h.unmatched) 0⟩
  | next hnext =>
      cases hnext with
      | @interfere m m' hinterferes =>
          refine ⟨_, _, Settled.start ?_ 0⟩
          rw [hinterferes.mmu]
          exact h.unmatched
      | @call m m' n left hcall =>
          have hsame := (stepPrologue_tally n).ok hcall
          exact ⟨_, _, Settled.start (hsame.matched.trans h.unmatched) left⟩
      | inside _ hcall =>
          obtain ⟨c', h', -⟩ := Point.tallied_next h hcounts hserializes
          exact ⟨c', N, h'⟩

/-- The count is kept at every point of a run. -/
theorem tallied_run {J : Prop} {cfg : IsaConfig} {halt : Bool} {dram : Reg → BitVec 8} {dev : β}
    {r : ℕ → Point β} {len : ℕ} (hrun : IsRun (HartStep P F) r len)
    (hinit : r 0 = .idle (cfg.machine halt dram dev))
    (hcounts : ∀ k < len, (r k).CountsAll P F) (hserializes : J → ∀ k < len, (r k).SerializesNext) :
    ∀ k ≤ len, ∃ c N, (r k).Tallied J c N := by
  apply hrun.invariant (I := fun p => ∃ c N, p.Tallied J c N)
  · rw [hinit]
    exact ⟨_, _, Settled.start rfl 0⟩
  · exact fun k hk hstep h => tallied_step hstep h (hcounts k hk) fun hJ => hserializes hJ k hk

/-- From a point on the count is kept as long as the call goes on, and it does not start anew
until an instruction writes the counter. -/
theorem tallied_since {J : Prop} {r : ℕ → Point β} {len : ℕ} (hrun : IsRun (HartStep P F) r len)
    (hcounts : ∀ k < len, (r k).CountsAll P F) (hserializes : J → ∀ k < len, (r k).SerializesNext)
    {c : Reg} {N i : ℕ} (hi : (r i).Tallied J c N) {k : ℕ} (hik : i ≤ k) (hk : k ≤ len)
    (hinside : ∀ j, i ≤ j → j < k → (r j).isIdle = false) :
    ∃ c', (r k).Tallied J c' N ∧
      ((∀ j, i ≤ j → j < k → (r j).setsCounter P F = false) → c' = c) := by
  induction k, hik using Nat.le_induction with
  | base => exact ⟨c, hi, fun _ => rfl⟩
  | succ k hik ih =>
      obtain ⟨c', h, hc⟩ := ih (by omega) fun j hlo hhi => hinside j hlo (by omega)
      have hnext : r (k + 1) = (r k).next P F := by
        refine (hrun k (by omega)).eq_next fun m hidle => ?_
        have hcall := hinside k hik (by omega)
        rw [hidle] at hcall
        cases hcall
      obtain ⟨c'', h', hc'⟩ := Point.tallied_next h (hcounts k (by omega))
        fun hJ => hserializes hJ k (by omega)
      rw [← hnext] at h'
      refine ⟨c'', h', fun hno => ?_⟩
      rw [hc' (hno k hik (by omega)), hc fun j hlo hhi => hno j hlo (by omega)]

/-- Instructions are not taken back. -/
theorem retired_next (p : Point β) : p.machine.retired ≤ (p.next P F).machine.retired := by
  have hsame {α : Type} {x : M β α} (hx : Keeps SameTally x) (R : ℕ) :
      Keeps (Stable fun m => R ≤ m.retired) x :=
    hx.imp fun m m' h hm => hm.trans_eq h.retired.symm
  have hparts (R : ℕ) : MachineParts P (fun m => R ≤ m.retired) fun _ => True := {
    bookkeeping := fun _ _ _ _ h => h
    unmatch := fun h => h
    load := fun pc m h => ((hsame ((refillKeeps_tally P).loadInsn pc) R).ensures h).imp
      (fun _ _ h => ⟨h, trivial⟩) fun _ _ h => h
    lookup := fun pc => hsame ((refillKeeps_tally P).accessIcache pc) R
    entry := fun _ _ => trivial
    refill := fun pc i => hsame ((refillKeeps_tally P).refillIcache pc i) R
    enterDebugMode := fun cause => hsame (enterDebugMode_tally cause) R
    takeTrap := fun t epc => hsame (takeTrap_tally t epc) R }
  have hrules := (hparts p.machine.retired).stepRules (F := F) (fun _ => True) ?_
  · by_cases hidle : ∃ m, p = .idle m
    · obtain ⟨m, rfl⟩ := hidle
      exact le_rfl
    · apply PointInv.machine (I := fun m => p.machine.retired ≤ m.retired)
      exact hrules.next (fun m hm => hidle ⟨m, hm⟩) trivial (PointInv.of_machine le_rfl)
  · intro site n fetch m l _ hm _
    refine (executeInsn_tally l.pc fetch m).imp ?_ ?_
    · exact fun npc m' h => hm.trans (h.retired ▸ Nat.le_add_right _ _)
    · exact fun e m' h => hm.trans_eq h.retired.symm

theorem retired_mono {r : ℕ → Point β} {len : ℕ} (hrun : IsRun (HartStep P F) r len) {i k : ℕ}
    (hik : i ≤ k) (hk : k ≤ len) (hinside : ∀ j, i ≤ j → j < k → (r j).isIdle = false) :
    (r i).machine.retired ≤ (r k).machine.retired := by
  induction k, hik using Nat.le_induction with
  | base => exact le_rfl
  | succ k hik ih =>
      have hnext : r (k + 1) = (r k).next P F := by
        refine (hrun k (by omega)).eq_next fun m hidle => ?_
        have hcall := hinside k hik (by omega)
        rw [hidle] at hcall
        cases hcall
      rw [hnext]
      exact (ih (by omega) fun j hlo hhi => hinside j hlo (by omega)).trans (retired_next _)

/-- A call does not start with more than it is asked for. -/
theorem stepPrologue_le {n left : Nat} {m m' : Machine β} (h : stepPrologue P n m = .ok left m') :
    left ≤ n := by
  have hreturns : Returns (stepPrologue P n) (· ≤ n) := by
    refine .bind (.any _) fun h _ => .ite (fun _ => .pure (Nat.min_le_left n 11)) fun _ => ?_
    refine .bind (.any _) fun m _ => .ite (fun _ => .bind (.any _) fun _ _ => .pure le_rfl) ?_
    refine fun _ => .bind (.any _) fun h _ => ?_
    exact .ite (fun _ => .bind (.any _) fun _ _ => .pure le_rfl) fun _ => .pure le_rfl
  exact hreturns.ok h

/-- **A call counts what it retires**, in every run in which the catch block of a trigger runs no
instruction again that returns a sentinel, and no sentinel is the tag of the entry that follows.
It retires at most `n` instructions, never counts more in a round than are left, and the counter
grows by what it has retired. -/
theorem step_counts_exactly {cfg : IsaConfig} {halt : Bool} {dram : Reg → BitVec 8} {dev : β}
    {r : ℕ → Point β} {len : ℕ} (hrun : IsRun (HartStep P F) r len)
    (hinit : r 0 = .idle (cfg.machine halt dram dev))
    (hcounts : ∀ k < len, (r k).CountsAll P F) {i n left : ℕ} {m₀ m₁ : Machine β}
    (hidle : r i = .idle m₀) (hcall : stepPrologue P n m₀ = .ok left m₁)
    (hhead : r (i + 1) = .head left m₁) {k : ℕ} (hik : i < k) (hk : k ≤ len)
    (hinside : ∀ j, i < j → j < k → (r j).isIdle = false) :
    (r k).machine.retired ≤ m₀.retired + n ∧ (r k).InBudget ∧
      ((∀ j, i < j → j < k → (r j).setsCounter P F = false) → (r k).isAborted = false →
        (r k).counter =
          m₀.hart.minstret + BitVec.ofNat 64 ((r k).machine.retired - m₀.retired)) := by
  have hsame := (stepPrologue_tally n).ok hcall
  have hfalse : False → ∀ k < len, (r k).SerializesNext := fun hno => hno.elim
  obtain ⟨c, N, hstart⟩ := tallied_run (J := False) hrun hinit hcounts hfalse i (by omega)
  rw [hidle] at hstart
  have hfirst : (r (i + 1)).Tallied False (m₁.hart.minstret - BitVec.ofNat 64 m₁.retired)
      (m₁.retired + left) := by
    rw [hhead]
    exact Settled.start (hsame.matched.trans hstart.unmatched) left
  have hlater : ∀ j, i + 1 ≤ j → j < k → (r j).isIdle = false := fun j hlo => hinside j hlo
  obtain ⟨c', htally, hc⟩ := tallied_since hrun hcounts hfalse hfirst hik hk hlater
  refine ⟨?_, htally.inBudget, fun hno halive => ?_⟩
  · rw [← hsame.retired]
    exact htally.retired_le.trans (Nat.add_le_add_left (stepPrologue_le hcall) _)
  · have hmono := retired_mono hrun hik hk hlater
    rw [hhead] at hmono
    change m₁.retired ≤ (r k).machine.retired at hmono
    rw [htally.counter_eq halive, hc hno, hsame.minstret, hsame.retired]
    rw [hsame.retired] at hmono
    conv_lhs => rw [← Nat.sub_add_cancel hmono, BitVec.ofNat_add]
    rw [BitVec.add_comm (BitVec.ofNat 64 _) (BitVec.ofNat 64 m₀.retired), ← BitVec.add_assoc,
      BitVec.sub_add_cancel]

/-- `addi x0, x0, 0` and `csrr x10, minstret`. -/
def readsCounter : Platform Bool := .rom [0x00000013, 0xb0202573]

def countedMachine (dram : Reg → BitVec 8) : Machine Bool :=
  IsaConfig.machine ⟨.rv32, 0x40141129, false⟩ false dram false

/-- A call of `step` for three instructions. -/
def readsCounterRun : ℕ → Point Bool
  | 0 => .idle (countedMachine fun _ => 0)
  | k + 1 => (Point.next readsCounter .zeros)^[k] (.head 3 (countedMachine fun _ => 0))

theorem three_counted :
    (readsCounterRun 13).isIdle = true ∧
      (readsCounterRun 13).machine.retired ≤ (countedMachine fun _ => 0).retired + 3 ∧
      (readsCounterRun 13).counter = (countedMachine fun _ => 0).hart.minstret + BitVec.ofNat 64
        ((readsCounterRun 13).machine.retired - (countedMachine fun _ => 0).retired) := by
  have hfacts : (∀ k < 12, (readsCounterRun (k + 1)).isIdle = false) ∧
      (readsCounterRun 13).isIdle = true ∧ (readsCounterRun 13).isAborted = false ∧
      (∀ k < 13, (readsCounterRun k).CountsAll readsCounter .zeros) ∧
      ∀ k < 13, (readsCounterRun k).setsCounter readsCounter .zeros = false := by
    decide +kernel
  obtain ⟨hinside, hidle, halive, hcounts, hsets⟩ := hfacts
  have hrun : IsRun (HartStep readsCounter .zeros) readsCounterRun 13 := fun k hk =>
    .next (isRun_call _ _ (n := 3) rfl rfl (fun _ => rfl) hinside k hk)
  obtain ⟨hretired, -, hcounter⟩ := step_counts_exactly hrun rfl hcounts (i := 0) (n := 3) rfl rfl
    rfl (k := 13) (by decide) le_rfl fun j hlo hhi => by
      obtain ⟨j, rfl⟩ := Nat.exists_eq_add_of_le' hlo
      exact hinside j (by omega)
  exact ⟨hidle, hretired, hcounter (fun j _ hhi => hsets j hhi) halive⟩

/-- A guest that arms a trigger on loads from address zero, after the access, and jumps to its
memory: `lui x5, 0x40`, `addi x5, x5, 0x41`, `csrw tdata1, x5`, `lui x10, 0x80000`,
`addi x12, x10, 0` and `jalr x0, 16(x10)`. -/
def patchedLoad : Platform Bool :=
  .rom [0x000402b7, 0x04128293, 0x7a129073, 0x80000537, 0x00050613, 0x01050067]

/-- There it has an `mret`, and from 16 on `lw x6, 0(x12)`, `sw x6, 16(x10)`, `addi x12, x0, 0`
and a jump back to the load, which by then is the `mret` in memory but not in the instruction
cache. -/
def patchedCode (a : Reg) : BitVec 8 :=
  romByte [0x30200073, 0, 0, 0, 0x00062303, 0x00652823, 0x00000613, 0xff5ff06f] (a + 0x1000)

def patchedLoadRun : ℕ → Point Bool
  | 0 => .idle (countedMachine patchedCode)
  | k + 1 => (Point.next patchedLoad .zeros)^[k] (.head 20 (countedMachine patchedCode))

/-- The call retires eleven instructions and counts two: where the load is run again as `mret`,
`step` is left without the addition. -/
theorem patched_load_not_counted :
    IsRun (HartStep patchedLoad .zeros) patchedLoadRun 29 ∧
      patchedLoadRun 0 = .idle (countedMachine patchedCode) ∧
      (∀ j < 29, (patchedLoadRun j).setsCounter patchedLoad .zeros = false) ∧
      (patchedLoadRun 29).isIdle = true ∧ (patchedLoadRun 29).machine.retired = 11 ∧
      (patchedLoadRun 29).counter = 2 := by
  have hfacts : (∀ k < 28, (patchedLoadRun (k + 1)).isIdle = false) ∧
      (∀ j < 29, (patchedLoadRun j).setsCounter patchedLoad .zeros = false) ∧
      (patchedLoadRun 29).isIdle = true ∧ (patchedLoadRun 29).machine.retired = 11 ∧
      (patchedLoadRun 29).counter = 2 := by
    decide +kernel
  obtain ⟨hinside, hrest⟩ := hfacts
  have hrun : IsRun (HartStep patchedLoad .zeros) patchedLoadRun 29 := fun k hk =>
    .next (isRun_call _ _ (n := 20) rfl rfl (fun _ => rfl) hinside k hk)
  exact ⟨hrun, rfl, hrest⟩

end SpikeSim.Riscv
