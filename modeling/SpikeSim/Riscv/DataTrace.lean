/-
# The trace of the data accesses

A tracer that is interested in loads and stores, such as `dcache_sim_t`, is called on
the slow paths only.  Registering it flushes the TLB, and from then on no tag for loads
or stores is entered, so that every load and store takes its slow path (`DataTagsClear`).

What the tracer ought to see is defined without it: the accesses of an instruction are
those of its acts that complete, at the physical address to which the page tables lead
(`insnAccesses`).
-/

import SpikeSim.Riscv.Fetch
import SpikeSim.Riscv.Tlb

namespace SpikeSim.Riscv

variable {β : Type}

/-! ## Accesses that complete -/

section Accesses

variable (P : Platform β)

/-- The access to the memory of a load or a store that completes. -/
def dramAccess (m : Machine β) (addr : Reg) (len : Nat) (type : AccessType) : List Traced :=
  match translation P m.hart m.dram addr type with
  | none => []
  | some (paddr, _) => if P.addrIsMem paddr then [⟨paddr, len, type⟩] else []

def loadAccess (ty : MemType) (addr : Reg) (m : Machine β) : List Traced :=
  match load P ty addr m with
  | .ok _ _ => dramAccess P m addr ty.bytes .load
  | .error _ _ => []

def storeAccess (ty : MemType) (addr value : Reg) (m : Machine β) : List Traced :=
  match store P ty addr value m with
  | .ok _ _ => dramAccess P m addr ty.bytes .store
  | .error _ _ => []

/-- The accesses of an act.  Those of an AMO are a load and, if that completes, a store. -/
def Act.accesses : Act → Machine β → List Traced
  | .load ty addr, m => loadAccess P ty addr m
  | .store ty addr value, m => storeAccess P ty addr value m
  | .amo ty addr f, m =>
    loadAccess P ty addr m ++
      match Riscv.load P ty addr m with
      | .ok lhs m' => storeAccess P ty addr (f lhs) m'
      | .error _ _ => []
  | _, _ => []

/-- The accesses of an instruction, in the order in which its handler makes them. -/
def insnAccesses (F : SoftFloat) (pc : Reg) (fetch : Decode.InsnFunc × Insn) (m : Machine β) :
    List Traced :=
  match fetch.1 with
  | .rv32 name => (insnProgram F name .rv32 fetch.2 pc).log (Act.exec P) (Act.accesses P) m
  | .rv64 name => (insnProgram F name .rv64 fetch.2 pc).log (Act.exec P) (Act.accesses P) m
  | .custom _ | .illegalInstruction => []

/-- The accesses that the next step of a call makes: those of the instruction that it executes. -/
def Point.accesses (F : SoftFloat) : Point β → List Traced
  | .execute _ _ fetch (m, l) => insnAccesses P F l.pc fetch m
  | _ => []

end Accesses

/-- The loads and stores among the accesses that were reported. -/
def Machine.dataTrace (m : Machine β) : List Traced := m.trace.filter fun t => t.type ≠ .fetch

/-! ## Triggers and tags -/

/-- The TLB has no tag for loads or stores. -/
def Mmu.DataTagsClear (u : Mmu) : Prop := ∀ kind ≠ .fetch, ∀ i, u.tlbTag kind i = -1

theorem Mmu.dataTagsClear_flushed (u : Mmu) : u.flushed.DataTagsClear :=
  fun kind _ => tlbEmpty_flushed u kind

/-- The refill for a fetch leaves the slots of the other kinds as they are or clears them. -/
theorem Mmu.DataTagsClear.refilled {P : Platform β} {u : Mmu} (h : u.DataTagsClear)
    (vaddr paddr : Reg) : (u.refilled P vaddr paddr .fetch).DataTagsClear := by
  intro kind hkind i
  rw [tlbTag_refilled]
  simp only [refillTag, if_neg hkind, h kind hkind, ite_self]
  by_cases hi : i = tlbIndex (vaddr >>> pgshift)
  · rw [hi, Function.update_self]
  · rw [Function.update_of_ne hi, h kind hkind]

/-- An empty slot is not hit. -/
theorem Mmu.DataTagsClear.not_tlbHit {u : Mmu} (h : u.DataTagsClear) {kind : AccessType}
    (hkind : kind ≠ .fetch) (addr : Reg) : ¬TlbHit u kind addr := by
  intro hhit
  have htag := hhit.tag_and
  rw [h kind hkind] at htag
  exact vpn_ne_empty addr htag

/-! ## The slow paths -/

section SlowPaths

variable {P : Platform β} {m : Machine β}

theorem run_load_miss {addr : Reg} (hmiss : ¬TlbHit m.mmu .load addr) (ty : MemType) :
    load P ty addr m =
      (if misaligned addr ty.bytes then throwTrap (.loadAddressMisaligned addr)
        else loadSlowPath P addr ty.bytes >>= fun data => pure (ty.toReg data) : M β Reg) m := by
  obtain ⟨hplain, hchecked⟩ := not_or.mp hmiss
  change ¬m.mmu.tlbLoadTag _ = _ at hplain hchecked
  unfold load
  split
  · rfl
  · simp only [run_bind, run_get, hplain, hchecked, if_false]

theorem run_store_miss {addr : Reg} (hmiss : ¬TlbHit m.mmu .store addr) (ty : MemType)
    (val : Reg) :
    store P ty addr val m =
      (if misaligned addr ty.bytes then throwTrap (.storeAddressMisaligned addr)
        else storeSlowPath P addr ty.bytes (ty.toReg val) : M β Unit) m := by
  obtain ⟨hplain, hchecked⟩ := not_or.mp hmiss
  change ¬m.mmu.tlbStoreTag _ = _ at hplain hchecked
  unfold store
  split
  · rfl
  · simp only [run_bind, run_get, hplain, hchecked, if_false]

/-- What an access does apart from the memory and the devices: it reports these accesses. -/
structure Reports (log : List Traced) (m m' : Machine β) : Prop where
  mmu : m'.mmu = m.mmu
  triggers : m'.hart.mcontrol = m.hart.mcontrol
  data : m'.dataTrace = m.dataTrace ++ log

theorem Reports.of_same {m' : Machine β} (hmmu : m'.mmu = m.mmu)
    (htriggers : m'.hart.mcontrol = m.hart.mcontrol) (htrace : m'.trace = m.trace) :
    Reports [] m m' where
  mmu := hmmu
  triggers := htriggers
  data := by rw [Machine.dataTrace, htrace, List.append_nil, Machine.dataTrace]

/-- An access that is no fetch is added to the trace. -/
theorem dataTrace_traced {t : Traced} (ht : t.type ≠ .fetch) (dram : Reg → BitVec 8) :
    ({ m with dram := dram, trace := m.trace ++ [t] } : Machine β).dataTrace =
      m.dataTrace ++ [t] := by
  simp [Machine.dataTrace, List.filter_append, ht]

/-- A load on the slow path, where loads are traced and no trigger is armed. -/
theorem ensures_loadSlowPath (hinterested : P.interested .load = true)
    (hunarmed : m.hart.Unarmed) (addr : Reg) (len : Nat) :
    Ensures (loadSlowPath P addr len) m (fun _ => Reports (dramAccess P m addr len .load) m)
      fun _ => Reports [] m := by
  have hchecked {Q : Reg → Machine β → Prop} {m' : Machine β} (data : Reg)
      (hunarmed : m'.hart.Unarmed) (hQ : Q data m') :
      Ensures (checkTrigger .load addr data >>= fun _ => pure data) m' Q fun _ => Reports [] m :=
    .bind (.of_ok (run_checkTrigger_unarmed hunarmed ..) hQ)
  rw [loadSlowPath_eq]
  apply Ensures.bind
  cases htr : translation P m.hart m.dram addr .load with
  | none => exact .of_error (by rw [translate_eq, htr]) (.of_same rfl rfl rfl)
  | some found =>
      obtain ⟨paddr, leaf⟩ := found
      refine .of_ok (by rw [translate_eq, htr]) (.bind (.bind ?_))
      refine Ensures.ite (fun hmem => ?_) fun hmem => ?_
      · simp only [hinterested, if_true]
        refine Ensures.bind (hchecked _ hunarmed ?_)
        rw [dramAccess, htr]
        simp only [hmem, if_true]
        exact ⟨rfl, rfl, dataTrace_traced (by simp) _⟩
      · have haccess : dramAccess P m addr len .load = [] := by
          rw [dramAccess, htr]
          simp only [hmem, if_false, Bool.false_eq_true]
        rw [haccess]
        let walked : Machine β := { m with dram := markLeaf m.dram .load leaf }
        cases hanswer : (P.mmioLoad paddr len walked.dev).1 with
        | none => exact .of_error (run_loadDevice_none P hanswer _) (.of_same rfl rfl rfl)
        | some data =>
            apply Ensures.of_ok (run_loadDevice_some P hanswer _)
            exact hchecked _ hunarmed (.of_same rfl rfl rfl)

/-- A store on the slow path, where stores are traced and no trigger is armed. -/
theorem ensures_storeSlowPath (hinterested : P.interested .store = true)
    (hunarmed : m.hart.Unarmed) (addr : Reg) (len : Nat) (data : Reg) :
    Ensures (storeSlowPath P addr len data) m
      (fun _ => Reports (dramAccess P m addr len .store) m) fun _ => Reports [] m := by
  rw [storeSlowPath_eq]
  apply Ensures.bind
  cases htr : translation P m.hart m.dram addr .store with
  | none => exact .of_error (by rw [translate_eq, htr]) (.of_same rfl rfl rfl)
  | some found =>
      obtain ⟨paddr, leaf⟩ := found
      refine .of_ok (by rw [translate_eq, htr]) (.bind ?_)
      refine .of_ok (run_checkTrigger_unarmed (by exact hunarmed) ..) (.bind ?_)
      refine Ensures.ite (fun hmem => ?_) fun hmem => ?_
      · simp only [hinterested, if_true]
        rw [dramAccess, htr]
        simp only [hmem, if_true]
        exact Ensures.bind ⟨rfl, rfl, dataTrace_traced (by simp) _⟩
      · have haccess : dramAccess P m addr len .store = [] := by
          rw [dramAccess, htr]
          simp only [hmem, if_false, Bool.false_eq_true]
        rw [haccess]
        refine Ensures.bind (Ensures.ite (fun _ => ?_) fun _ => ?_)
        · exact .of_same rfl rfl rfl
        · exact .of_same rfl rfl rfl

end SlowPaths

/-! ## Instructions -/

/-- A tracer of loads and stores is registered. -/
structure Platform.TracesData (P : Platform β) : Prop where
  load : P.interested .load = true
  store : P.interested .store = true

/-- Every load and store takes the slow path, and no trigger interferes. -/
structure Traceable (m : Machine β) : Prop where
  tags : m.mmu.DataTagsClear
  triggers : m.hart.Unarmed

theorem Reports.traceable {log : List Traced} {m m' : Machine β} (h : Reports log m m')
    (hm : Traceable m) : Traceable m' where
  tags := h.mmu ▸ hm.tags
  triggers i := by
    rw [h.triggers]
    exact hm.triggers i

theorem Reports.trans {first second : List Traced} {m₁ m₂ m₃ : Machine β}
    (h₁₂ : Reports first m₁ m₂) (h₂₃ : Reports second m₂ m₃) :
    Reports (first ++ second) m₁ m₃ where
  mmu := h₂₃.mmu.trans h₁₂.mmu
  triggers := h₂₃.triggers.trans h₁₂.triggers
  data := by rw [h₂₃.data, h₁₂.data, List.append_assoc]

section Acts

variable {P : Platform β} (hP : P.TracesData) {m : Machine β} (hm : Traceable m)

include hP hm

/-- **A load reports itself** if it completes and goes to the memory. -/
theorem ensures_load (ty : MemType) (addr : Reg) :
    Ensures (load P ty addr) m (fun _ => Reports (loadAccess P ty addr m) m)
      fun _ => Reports (loadAccess P ty addr m) m := by
  have hslow : Ensures (load P ty addr) m
      (fun _ => Reports (dramAccess P m addr ty.bytes .load) m) fun _ => Reports [] m := by
    rw [Ensures, run_load_miss (hm.tags.not_tlbHit (by decide) addr)]
    refine Ensures.ite (fun _ => .of_same rfl rfl rfl) fun _ => ?_
    exact Ensures.bind (ensures_loadSlowPath hP.load hm.triggers addr ty.bytes)
  refine ensures_iff.mpr ⟨fun _ m' h => ?_, fun _ m' h => ?_⟩
  · rw [loadAccess, h]
    exact hslow.ok h
  · rw [loadAccess, h]
    exact hslow.error h

/-- **A store reports itself** if it completes and goes to the memory. -/
theorem ensures_store (ty : MemType) (addr value : Reg) :
    Ensures (store P ty addr value) m (fun _ => Reports (storeAccess P ty addr value m) m)
      fun _ => Reports (storeAccess P ty addr value m) m := by
  have hslow : Ensures (store P ty addr value) m
      (fun _ => Reports (dramAccess P m addr ty.bytes .store) m) fun _ => Reports [] m := by
    rw [Ensures, run_store_miss (hm.tags.not_tlbHit (by decide) addr)]
    refine Ensures.ite (fun _ => .of_same rfl rfl rfl) fun _ => ?_
    exact ensures_storeSlowPath hP.store hm.triggers addr ty.bytes _
  refine ensures_iff.mpr ⟨fun _ m' h => ?_, fun _ m' h => ?_⟩
  · rw [storeAccess, h]
    exact hslow.ok h
  · rw [storeAccess, h]
    exact hslow.error h

/-- The catch block of `amo_func`. -/
def amoRethrow : Exn → M β Reg
  | .trap t => if t.cause = 5 then throwTrap ⟨7, t.badaddr⟩ else throwTrap t
  | e => throw e

/-- **An AMO reports a load and then a store.** -/
theorem ensures_amo (ty : MemType) (addr : Reg) (f : Reg → Reg) :
    Ensures (amo P ty addr f) m (fun _ => Reports (Act.accesses P (.amo ty addr f) m) m)
      fun _ => Reports (Act.accesses P (.amo ty addr f) m) m := by
  have hload := ensures_load hP hm ty addr
  -- What the catch block of `amo_func` does with an exception of the load or the store.
  have hrethrow (e : Exn) {m' : Machine β} {Q : Reg → Machine β → Prop} {log : List Traced}
      (h : Reports log m m') : Ensures (amoRethrow e) m' Q fun _ => Reports log m := by
    cases e with
    | trap t => exact Ensures.ite (fun _ => h) fun _ => h
    | trigger t => exact h
    | abort => exact h
  unfold amo
  refine Ensures.ite (fun hmisaligned => ?_) fun _ => ?_
  · -- The load would have refused the address as well.
    have hrefused : load P ty addr m = .error (.trap (.loadAddressMisaligned addr)) m := by
      rw [run_load_miss (hm.tags.not_tlbHit (by decide) addr), if_pos hmisaligned]
      rfl
    apply Ensures.bind
    change Reports (Act.accesses P (.amo ty addr f) m) m m
    rw [Act.accesses, loadAccess, hrefused]
    exact .of_same rfl rfl rfl
  · apply Ensures.tryCatch
    apply Ensures.bind
    rcases hload.cases with ⟨lhs, m₁, hrun, hfirst⟩ | ⟨e, m₁, hrun, hfirst⟩
    · have haccess : Act.accesses P (.amo ty addr f) m =
          loadAccess P ty addr m ++ storeAccess P ty addr (f lhs) m₁ := by
        rw [Act.accesses, hrun]
      rw [haccess]
      refine .of_ok hrun (.bind ?_)
      refine (ensures_store hP (hfirst.traceable hm) ty addr (f lhs)).imp ?_ ?_
      · exact fun _ _ hsecond => hfirst.trans hsecond
      · exact fun e _ hsecond => hrethrow e (hfirst.trans hsecond)
    · have haccess : Act.accesses P (.amo ty addr f) m = loadAccess P ty addr m := by
        rw [Act.accesses, hrun, List.append_nil]
      rw [haccess]
      exact .of_error hrun (hrethrow e hfirst)

end Acts

/-- Acts that change the hart alone, and not its triggers. -/
theorem Act.onHart_mcontrol {a : Act} {f : Hart → Hart} (hf : a.onHart = some f) (h : Hart) :
    (f h).mcontrol = h.mcontrol := by
  rw [Act.onHart_frame hf]

section Insns

variable {P : Platform β} {m : Machine β}

/-- The act reports its accesses. -/
def Act.Reported (P : Platform β) (I : Machine β → Prop) (a : Act) (m : Machine β) : Prop :=
  Ensures (a.exec P) m (fun _ m' => I m' ∧ m'.dataTrace = m.dataTrace ++ a.accesses P m)
    fun _ m' => I m' ∧ m'.dataTrace = m.dataTrace ++ a.accesses P m

/-- An ordinary act. -/
theorem Act.Ordinary.reported {xlen : Xlen} {a : Act} (ha : a.Ordinary xlen)
    (hP : P.TracesData) (hm : Traceable m) : a.Reported P Traceable m := by
  have hhart {f : Hart → Hart} (hf : a.onHart = some f) {log : List Traced} (hlog : log = []) :
      Traceable { m with hart := f m.hart } ∧
        ({ m with hart := f m.hart } : Machine β).dataTrace = m.dataTrace ++ log := by
    subst hlog
    have hreports : Reports [] m { m with hart := f m.hart } :=
      .of_same rfl (Act.onHart_mcontrol hf m.hart) rfl
    exact ⟨hreports.traceable hm, hreports.data⟩
  have hreports {log : List Traced} {m' : Machine β} (h : Reports log m m') :
      Traceable m' ∧ m'.dataTrace = m.dataTrace ++ log := ⟨h.traceable hm, h.data⟩
  have hsame : Traceable m ∧ m.dataTrace = m.dataTrace ++ [] := ⟨hm, by rw [List.append_nil]⟩
  cases a with
  | hart => exact hsame
  | writeXpr | writeFpr | setFpExceptions | setSerialized | setLoadReservation | setStatePc
  | leaveDebugMode =>
      all_goals exact hhart rfl rfl
  | setPrivilege | setCsr => all_goals exact ha.elim
  | load ty addr => exact (ensures_load hP hm ty addr).imp (fun _ _ => hreports) fun _ _ => hreports
  | store ty addr value =>
      exact (ensures_store hP hm ty addr value).imp (fun _ _ => hreports) fun _ _ => hreports
  | amo ty addr f =>
      exact (ensures_amo hP hm ty addr f).imp (fun _ _ => hreports) fun _ _ => hreports
  | getCsr which =>
      have hread : Keeps Eq (Riscv.getCsr P which) := ReadKeeps.getCsr which
      exact ensures_iff.mpr ⟨fun _ _ h => hread.ok h ▸ hsame, fun _ _ h => hread.error h ▸ hsame⟩
  | flushTlb => exact ⟨⟨m.mmu.dataTagsClear_flushed, hm.triggers⟩, hsame.2⟩
  | flushIcache => exact ⟨⟨hm.tags, hm.triggers⟩, hsame.2⟩

/-- The acts of a CSR instruction or a return report nothing, and leave the tags clear. -/
structure TagsKept (m m' : Machine β) : Prop where
  trace : m'.trace = m.trace
  tags : m.mmu.DataTagsClear → m'.mmu.DataTagsClear

instance : Std.Refl (TagsKept (β := β)) := ⟨fun _ => ⟨rfl, id⟩⟩

instance : IsTrans (Machine β) TagsKept :=
  ⟨fun _ _ _ hab hbc => ⟨hbc.trace.trans hab.trace, hbc.tags ∘ hab.tags⟩⟩

theorem flushTlb_tagsKept : Keeps TagsKept (flushTlb : M β Unit) where
  ok := by
    intro m _ m' h
    cases h
    exact ⟨rfl, fun _ => m.mmu.dataTagsClear_flushed⟩
  error := by
    intro m e m' h
    cases h

theorem controlKeeps_tagsKept : ControlKeeps (TagsKept (β := β)) where
  flushTlb := flushTlb_tagsKept
  hart _ _ _ := ⟨rfl, id⟩
  record _ _ := ⟨rfl, id⟩

/-- A write of `tdata1` flushes the TLB. -/
theorem setCsr_tagsKept (which val : Reg) : Keeps TagsKept (setCsr which val : M β Unit) := by
  by_cases hwhich : which = Csr.tdata1.num
  · subst hwhich
    have hwrite (m : Machine β) : Ensures (setCsr Csr.tdata1.num val) m (fun _ => TagsKept m)
        fun _ => TagsKept m := by
      rw [Ensures, run_setCsr_tdata1]
      split_ifs
      · exact Std.Refl.refl m
      · exact ⟨rfl, fun _ => m.mmu.dataTagsClear_flushed⟩
    exact ⟨fun h => (hwrite _).ok h, fun h => (hwrite _).error h⟩
  · exact controlKeeps_tagsKept.setCsr hwhich val

theorem Act.Control.reported {c : Ctx} {name : InsnName} {a : Act} (ha : a.Control c name)
    (hm : m.mmu.DataTagsClear) : a.Reported P (fun m => m.mmu.DataTagsClear) m := by
  have hkept : Keeps TagsKept (a.exec P) := by
    cases ha with
    | hart => exact keeps_getHart
    | setSerialized => exact .modify fun _ => ⟨rfl, id⟩
    | getCsr which => exact ReadKeeps.getCsr which
    | writeXpr value => exact .modify fun _ => ⟨rfl, id⟩
    | setStatePc pc => exact .modify fun _ => ⟨rfl, id⟩
    | setPrivilege prv => exact controlKeeps_tagsKept.setPrivilege prv
    | leaveDebugMode => exact .modify fun _ => ⟨rfl, id⟩
    | setStatus value => exact setCsr_tagsKept Csr.mstatus.num value
    | setCsr hname value => exact setCsr_tagsKept _ value
  have hnone : a.accesses P m = [] := by
    cases ha <;> rfl
  have hreported {m' : Machine β} (h : TagsKept m m') :
      m'.mmu.DataTagsClear ∧ m'.dataTrace = m.dataTrace ++ a.accesses P m := by
    refine ⟨h.tags hm, ?_⟩
    rw [hnone, List.append_nil, Machine.dataTrace, h.trace, Machine.dataTrace]
  exact ensures_iff.mpr ⟨fun _ _ h => hreported (hkept.ok h), fun _ _ h => hreported (hkept.error h)⟩

/-- **An instruction reports its accesses.** -/
theorem ensures_executeInsn (hP : P.TracesData) (hm : Traceable m) (F : SoftFloat) (pc : Reg)
    (fetch : Decode.InsnFunc × Insn) :
    Ensures (executeInsn P F pc fetch) m
      (fun _ m' => m'.mmu.DataTagsClear ∧ m'.dataTrace = m.dataTrace ++ insnAccesses P F pc fetch m)
      fun _ m' => m'.mmu.DataTagsClear ∧
        m'.dataTrace = m.dataTrace ++ insnAccesses P F pc fetch m := by
  have hprogram (name : InsnName) (xlen : Xlen) (insn : Insn) :
      Ensures ((insnProgram F name xlen insn pc).run (Act.exec P)) m
        (fun _ m' => m'.mmu.DataTagsClear ∧ m'.dataTrace = m.dataTrace ++
          (insnProgram F name xlen insn pc).log (Act.exec P) (Act.accesses P) m)
        fun _ m' => m'.mmu.DataTagsClear ∧ m'.dataTrace = m.dataTrace ++
          (insnProgram F name xlen insn pc).log (Act.exec P) (Act.accesses P) m := by
    rcases uses_ordinary_or_control (handler_family F name ⟨xlen, insn, pc, _⟩) with huses | huses
    · refine (huses.ensures_log (fun a _ ha hs => ha.ordinary.reported hP hs) hm).imp ?_ ?_
      · exact fun _ _ h => ⟨h.1.tags, h.2⟩
      · exact fun _ _ h => ⟨h.1.tags, h.2⟩
    · exact huses.ensures_log (fun a _ ha hs => ha.reported hs) hm.tags
  have hnone : m.mmu.DataTagsClear ∧ m.dataTrace = m.dataTrace ++ [] :=
    ⟨hm.tags, by rw [List.append_nil]⟩
  have hcall : Ensures (callFunc P F fetch.1 fetch.2 pc) m
      (fun _ m' => m'.mmu.DataTagsClear ∧ m'.dataTrace = m.dataTrace ++ insnAccesses P F pc fetch m)
      fun _ m' => m'.mmu.DataTagsClear ∧
        m'.dataTrace = m.dataTrace ++ insnAccesses P F pc fetch m := by
    obtain ⟨func, insn⟩ := fetch
    cases func with
    | rv32 name => exact hprogram name .rv32 insn
    | rv64 name => exact hprogram name .rv64 insn
    | custom n => exact hnone
    | illegalInstruction => exact hnone
  refine Ensures.bind (hcall.imp (fun npc m' h => ?_) fun _ _ h => h)
  exact Ensures.ite (fun _ => h) fun _ => h

end Insns

/-! ## Runs -/

/-- `register_memtracer`.  The tracers themselves are part of the platform. -/
def registerMemtracer : M β Unit := flushTlb

/-- The tags are clear, and these are the data accesses that were reported. -/
def TracedData (data : List Traced) (m : Machine β) : Prop :=
  m.mmu.DataTagsClear ∧ m.dataTrace = data

section Runs

variable (P : Platform β) (F : SoftFloat)

/-- A fetch neither enters tags for data nor reports data accesses. -/
theorem refillKeeps_tracedData (data : List Traced) :
    RefillKeeps P (Stable (TracedData data)) where
  walk _ _ _ _ _ h := h
  refill _ vaddr paddr h := ⟨h.1.refilled vaddr paddr, h.2⟩
  device _ _ _ h := h
  decoder _ _ h := h
  traced m addr bytes h := by
    refine ⟨h.1, ?_⟩
    simpa [Machine.dataTrace, List.filter_append] using h.2
  icache _ _ _ h := h

theorem TagsKept.tracedData {data : List Traced} {m m' : Machine β} (h : TagsKept m m')
    (hm : TracedData data m) : TracedData data m' := by
  refine ⟨h.tags hm.1, ?_⟩
  rw [Machine.dataTrace, h.trace]
  exact hm.2

theorem machineParts_tracedData (data : List Traced) :
    MachineParts P (TracedData data) fun _ => True where
  bookkeeping _ _ _ _ h := h
  unmatch h := h
  load pc _ h := (((refillKeeps_tracedData P data).loadInsn pc).ensures h).imp
    (fun _ _ h => ⟨h, trivial⟩) fun _ _ h => h
  lookup pc := (refillKeeps_tracedData P data).accessIcache pc
  entry _ _ := trivial
  refill pc i := (refillKeeps_tracedData P data).refillIcache pc i
  enterDebugMode cause :=
    (controlKeeps_tagsKept.enterDebugMode cause).imp fun _ _ => TagsKept.tracedData
  takeTrap t epc := (controlKeeps_tagsKept.takeTrap t epc).imp fun _ _ => TagsKept.tracedData

variable {P F}

/-- **A step inside of a call** reports the accesses of the instruction that it executes. -/
theorem tracedData_next (hP : P.TracesData) {p : Point β} (hcall : ∀ m, p ≠ .idle m)
    (htags : p.machine.mmu.DataTagsClear) (hunarmed : p.machine.hart.Unarmed) :
    TracedData (p.machine.dataTrace ++ p.accesses P F) (p.next P F).machine := by
  by_cases hexecute : ∃ site n fetch s, p = .execute site n fetch s
  · obtain ⟨site, n, fetch, ⟨m, l⟩, rfl⟩ := hexecute
    have hm : Traceable m := ⟨htags, hunarmed⟩
    have hrules := (machineParts_tracedData P
      (m.dataTrace ++ insnAccesses P F l.pc fetch m)).stepRules (F := F) (fun _ => False)
      False.elim
    rw [Point.next]
    rcases (ensures_executeInsn hP hm F l.pc fetch).cases with
      ⟨npc, m', hrun, h⟩ | ⟨e, m', hrun, h⟩
    · rw [hrun]
      exact (hrules.ofReturned site n h).machine
    · rw [hrun]
      cases site with
      | slow turns => exact h
      | fast turns i => exact h
      | restart t => exact h
  · have hnone : p.accesses P F = [] := by
      cases p with
      | execute site n fetch s => exact absurd ⟨site, n, fetch, s, rfl⟩ hexecute
      | idle | head | slow | fast | caught | action | stopped => all_goals rfl
    have hrules := (machineParts_tracedData P p.machine.dataTrace).stepRules (F := F)
      (fun p => ¬∃ site n fetch s, p = .execute site n fetch s)
      (fun hcond => absurd ⟨_, _, _, _, rfl⟩ hcond)
    rw [hnone, List.append_nil]
    have hstart : TracedData p.machine.dataTrace p.machine := ⟨htags, rfl⟩
    exact (hrules.next hcall hexecute (PointInv.of_machine hstart)).machine

/-- A step of the hart. -/
theorem tracedData_step (hP : P.TracesData) {p p' : Point β} (hnext : Next P F p p')
    (htags : p.machine.mmu.DataTagsClear) (hunarmed : p.machine.hart.Unarmed) :
    p'.machine.mmu.DataTagsClear ∧
      (InStep p p' → p'.machine.dataTrace = p.machine.dataTrace ++ p.accesses P F) := by
  cases hnext with
  | interfere h =>
      refine ⟨h.mmu ▸ htags, fun hin => ?_⟩
      rcases hin with ⟨n, m, hhead⟩ | hcall
      · cases hhead
      · exact absurd rfl (hcall _)
  | call n h =>
      have hkept := ((machineParts_tracedData P _).stepPrologue n).ok h ⟨htags, rfl⟩
      exact ⟨hkept.1, fun _ => hkept.2.trans (List.append_nil _).symm⟩
  | inside _ hcall =>
      have hkept := tracedData_next hP (F := F) hcall htags hunarmed
      exact ⟨hkept.1, fun _ => hkept.2⟩

/-- **The trace is that of the accesses.**  From the registration of a tracer of loads and stores
on, as long as no trigger is armed: no load or store hits the TLB, every step of the hart reports
exactly the accesses to the memory that the instruction it executes completes, in their order,
and what has been reported at any point is the sequence of these accesses. -/
theorem data_trace (hP : P.TracesData) {r : ℕ → Point β} {len : ℕ} (hrun : IsRun (Next P F) r len)
    {m₀ m : Machine β} (hregister : registerMemtracer m₀ = .ok () m) (hstart : r 0 = .idle m)
    (hunarmed : ∀ k < len, (r k).machine.hart.Unarmed) :
    (∀ k ≤ len, ∀ kind ≠ .fetch, ∀ addr, ¬TlbHit (r k).machine.mmu kind addr) ∧
    (∀ k < len, InStep (r k) (r (k + 1)) →
      (r (k + 1)).machine.dataTrace = (r k).machine.dataTrace ++ (r k).accesses P F) ∧
    ((∀ k < len, ¬InStep (r k) (r (k + 1)) →
        (r (k + 1)).machine.trace = (r k).machine.trace) →
      ∀ k ≤ len, (r k).machine.dataTrace =
        (r 0).machine.dataTrace ++ (List.range k).flatMap fun j => (r j).accesses P F) := by
  have htags : ∀ k ≤ len, (r k).machine.mmu.DataTagsClear := by
    apply hrun.invariant (I := fun p => p.machine.mmu.DataTagsClear)
    · rw [hstart]
      cases hregister
      exact m₀.mmu.dataTagsClear_flushed
    · exact fun k hk hnext h => (tracedData_step hP hnext h (hunarmed k hk)).1
  have hstep (k : ℕ) (hk : k < len) (hin : InStep (r k) (r (k + 1))) :
      (r (k + 1)).machine.dataTrace = (r k).machine.dataTrace ++ (r k).accesses P F :=
    (tracedData_step hP (hrun k hk) (htags k hk.le) (hunarmed k hk)).2 hin
  refine ⟨fun k hk kind hkind addr => (htags k hk).not_tlbHit hkind addr, hstep, fun hown => ?_⟩
  intro k
  induction k with
  | zero => exact fun _ => (List.append_nil _).symm
  | succ k ih =>
      intro hk
      have hgrows : (r (k + 1)).machine.dataTrace =
          (r k).machine.dataTrace ++ (r k).accesses P F := by
        by_cases hin : InStep (r k) (r (k + 1))
        · exact hstep k hk hin
        · -- Outside of a call nothing is accessed.
          have hidle : ∃ m, r k = .idle m := by
            by_contra hcall
            exact hin (.inr fun m heq => hcall ⟨m, heq⟩)
          obtain ⟨m, hm⟩ := hidle
          rw [Machine.dataTrace, hown k hk hin, ← Machine.dataTrace, hm]
          exact (List.append_nil _).symm
      rw [hgrows, ih (by omega), List.range_succ, List.flatMap_append, List.append_assoc]
      simp only [List.flatMap_cons, List.flatMap_nil, List.append_nil]

end Runs

/-- A megabyte of memory and a tracer of loads and stores. -/
def Platform.traced : Platform Unit := { Platform.bare with interested := fun type => type ≠ .fetch }

/-- `amoadd.w x10, x11, (x12)` at the start of the memory, where `x12` points to the next page. -/
def amoMachine : Machine Unit :=
  let m := Machine.reset .rv64 1 false (Decode.freshDecoder false)
    (writeLE (fun _ => 0) 0 4 0xb6252f) ()
  { m with hart := { m.hart with
    pc := dramBase
    xpr := Function.update m.hart.xpr 12 (dramBase + 0x1000) } }

/-- A call of `step` for this instruction. -/
def amoRun : ℕ → Point Unit
  | 0 => .idle { amoMachine with mmu := amoMachine.mmu.flushed }
  | k + 1 =>
    (Point.next .traced .zeros)^[k] (.head 1 { amoMachine with mmu := amoMachine.mmu.flushed })

theorem amoRun_data_trace :
    (amoRun 6).isIdle = true ∧
      (amoRun 6).machine.dataTrace = [⟨0x80001000, 4, .load⟩, ⟨0x80001000, 4, .store⟩] ∧
      (amoRun 6).machine.dataTrace = (amoRun 0).machine.dataTrace ++
        (List.range 6).flatMap fun j => (amoRun j).accesses .traced .zeros := by
  have hinside : ∀ k < 5, (amoRun (k + 1)).isIdle = false := by decide +kernel
  have hunarmed : ∀ k < 6, (amoRun k).machine.hart.Unarmed := by decide +kernel
  have hcall (k : ℕ) (hk : k < 5) (m : Machine Unit) : amoRun (k + 1) ≠ .idle m := by
    intro heq
    have hidle := hinside k hk
    rw [heq] at hidle
    cases hidle
  have hrun : IsRun (Next .traced .zeros) amoRun 6 := by
    intro k hk
    cases k with
    | zero => exact .call 1 rfl
    | succ k =>
        have hnext : amoRun (k + 1 + 1) = Point.next .traced .zeros (amoRun (k + 1)) :=
          Function.iterate_succ_apply' ..
        rw [hnext]
        exact .inside _ (hcall k (by omega))
  have hin : ∀ k < 6, InStep (amoRun k) (amoRun (k + 1)) := by
    intro k hk
    cases k with
    | zero => exact .inl ⟨1, _, rfl⟩
    | succ k => exact .inr (hcall k (by omega))
  refine ⟨by decide +kernel, by decide +kernel, ?_⟩
  have hregister : registerMemtracer amoMachine =
      .ok () { amoMachine with mmu := amoMachine.mmu.flushed } := rfl
  have htrace := data_trace (P := .traced) (F := .zeros) ⟨rfl, rfl⟩ hrun hregister rfl hunarmed
  exact htrace.2.2 (fun k hk hout => absurd (hin k hk) hout) 6 (le_refl 6)

end SpikeSim.Riscv
