/-
# Load reservations

A load-reserved makes a reservation and a store-conditional looks at it.  Nothing else sets
`load_reservation` to an address: traps and the scheduler give it up, and every other step leaves
it alone.  So a reservation that stands was made by the last load-reserved.

A store-conditional leaves the reservation as it is, and a second one succeeds as well.
`store_conditional_once` says under which condition on a run each success has a load-reserved of
its own.
-/

import SpikeSim.Riscv.Reachable
import SpikeSim.Riscv.Retire

namespace SpikeSim.Riscv

open Handler

variable {β : Type} {P : Platform β} {F : SoftFloat}

/-! ## The instructions -/

/-- The address that a load-reserved reserves. -/
def reservedBy (fetch : Decode.InsnFunc × Insn) (h : Hart) : Option Reg :=
  match fetch.1 with
  | .rv32 .lrW | .rv64 .lrW | .rv64 .lrD =>
    if h.supportsExtension 'A' then some (h.xpr fetch.2.rs1) else none
  | _ => none

/-- The address that a store-conditional is about. -/
def conditionalOn (fetch : Decode.InsnFunc × Insn) (h : Hart) : Option Reg :=
  match fetch.1 with
  | .rv32 .scW | .rv64 .scW | .rv64 .scD =>
    if h.supportsExtension 'A' then some (h.xpr fetch.2.rs1) else none
  | _ => none

/-- What an act writes to the integer registers. -/
def Act.xprWrites : Act → Machine β → List (Fin 32 × Reg)
  | .writeXpr reg value, _ => [(reg, value)]
  | _, _ => []

/-- What an instruction writes to the integer registers. -/
def xprWrites (P : Platform β) (F : SoftFloat) (pc : Reg) (fetch : Decode.InsnFunc × Insn)
    (m : Machine β) : List (Fin 32 × Reg) :=
  match fetch.1 with
  | .rv32 name => (insnProgram F name .rv32 fetch.2 pc).log (Act.exec P) Act.xprWrites m
  | .rv64 name => (insnProgram F name .rv64 fetch.2 pc).log (Act.exec P) Act.xprWrites m
  | .custom _ | .illegalInstruction => []

namespace Point

/-- The address that the instruction at the point reserves. -/
def reserves : Point β → Option Reg
  | .execute _ _ fetch (m, _) => reservedBy fetch m.hart
  | _ => none

/-- The address of a store-conditional at the point. -/
def conditionalOn : Point β → Option Reg
  | .execute _ _ fetch (m, _) => Riscv.conditionalOn fetch m.hart
  | _ => none

/-- A store-conditional at the point returns, with success or without. -/
def endsConditional (P : Platform β) (F : SoftFloat) : Point β → Bool
  | .execute _ _ fetch (m, l) =>
    (Riscv.conditionalOn fetch m.hart).isSome && Succeeds (executeInsn P F l.pc fetch m)
  | _ => false

/-- A store-conditional at the point writes zero to `rd`: the address where it has stored. -/
def storesConditionally (P : Platform β) (F : SoftFloat) : Point β → Option Reg
  | .execute _ _ fetch (m, l) =>
    if (fetch.2.rd, 0) ∈ xprWrites P F l.pc fetch m then Riscv.conditionalOn fetch m.hart else none
  | _ => none

end Point

/-! ## The handlers -/

section Handlers

variable {c : Ctx} {m : Machine β}

/-- A load-reserved makes its reservation before it loads. -/
theorem loadReserved_reserves {needs : List Need} (ty : MemType)
    (hneeds : ∀ need ∈ needs, need.holds c m.hart = true) :
    Ensures ((loadReserved needs ty c).run (Act.exec P)) m
      (fun _ m' => m'.hart.loadReservation = m.hart.xpr c.insn.rs1)
      fun _ m' => m'.hart.loadReservation = m.hart.xpr c.insn.rs1 := by
  unfold Ensures
  rw [loadReserved, run_requireAll_bind_of_holds _ hneeds, run_readHart_bind]
  let reserved : Machine β :=
    { m with hart := { m.hart with loadReservation := m.hart.xpr c.insn.rs1 } }
  change Ensures (do
    let value ← load P ty (m.hart.xpr c.insn.rs1)
    modifyHart fun h => h.writeXpr c.insn.rd value
    return c.npc : M β Reg) reserved _ _
  have hload := load_readOnly P ty (m.hart.xpr c.insn.rs1)
  refine Ensures.bind (ensures_iff.mpr ⟨fun value m' hrun => ?_, fun e m' hrun => ?_⟩)
  · apply Ensures.bind
    change (m'.hart.writeXpr c.insn.rd value).loadReservation = _
    rw [(hload.ok hrun).hart]
    unfold Hart.writeXpr
    split <;> rfl
  · rw [(hload.error hrun).hart]

/-- Where a check fails, nothing is done. -/
theorem run_requireAll_of_fails {α : Type} {needs : List Need} (k : Unit → Handler α)
    (h : ∃ need ∈ needs, need.holds c m.hart = false) :
    (requireAll c needs >>= k).run (Act.exec P) m = .error (.trap .illegalInstruction) m := by
  induction needs with
  | nil =>
      obtain ⟨need, hneed, -⟩ := h
      cases hneed
  | cons need rest ih =>
      change ((require (need.holds c m.hart) >>= fun _ => requireAll c rest) >>= k).run
        (Act.exec P) m = _
      cases hholds : need.holds c m.hart with
      | false => rfl
      | true =>
          apply ih
          obtain ⟨other, hother, hfails⟩ := h
          rcases List.mem_cons.mp hother with rfl | hrest
          · rw [hholds] at hfails
            cases hfails
          · exact ⟨other, hrest, hfails⟩

/-- The checks log nothing. -/
theorem log_requireAll_of_holds {α : Type} {needs : List Need} (k : Unit → Handler α)
    (h : ∀ need ∈ needs, need.holds c m.hart = true) :
    (requireAll c needs >>= k).log (Act.exec P) Act.xprWrites m =
      (k ()).log (Act.exec P) Act.xprWrites m := by
  induction needs with
  | nil => rfl
  | cons need rest ih =>
      change ((require (need.holds c m.hart) >>= fun _ => requireAll c rest) >>= k).log
        (Act.exec P) Act.xprWrites m = _
      rw [h need List.mem_cons_self]
      exact ih fun other hother => h other (List.mem_cons_of_mem _ hother)

/-- No store is made at the address that stands for no reservation. -/
theorem store_none_throws {ty : MemType} (hty : 1 < ty.bytes) (hbytes : ty.bytes ≤ 8) (val : Reg)
    (m : Machine β) :
    store P ty (-1) val m = .error (.trap (.storeAddressMisaligned (-1))) m := by
  have halign : misaligned (-1) ty.bytes = true := by
    obtain ⟨bytes, signed⟩ := ty
    change 1 < bytes at hty
    change bytes ≤ 8 at hbytes
    change misaligned (-1) bytes = true
    interval_cases bytes <;> decide
  rw [store, halign]
  rfl

/-- A store-conditional that writes zero has stored where the reservation stands. -/
theorem storeConditional_stores {needs : List Need} {ty : MemType} (hty : 1 < ty.bytes)
    (hbytes : ty.bytes ≤ 8) (hneeds : ∀ need ∈ needs, need.holds c m.hart = true)
    (hzero : (c.insn.rd, 0) ∈
      (storeConditional needs ty c).log (Act.exec P) Act.xprWrites m) :
    m.hart.loadReservation = m.hart.xpr c.insn.rs1 ∧ m.hart.xpr c.insn.rs1 ≠ -1 := by
  rw [storeConditional, log_requireAll_of_holds _ hneeds] at hzero
  change (c.insn.rd, 0) ∈ (if _ then _ else _ : Handler Reg).log (Act.exec P) Act.xprWrites m
    at hzero
  by_cases hreserved : m.hart.xpr c.insn.rs1 = m.hart.loadReservation
  · refine ⟨hreserved.symm, fun hnone => ?_⟩
    rw [if_pos hreserved, hnone] at hzero
    have hcall (k : Unit → Handler Reg) :
        (act (.store ty (-1) (m.hart.xpr c.insn.rs2)) >>= k).log (Act.exec P) Act.xprWrites m =
          [] :=
      Program.log_call_error (store_none_throws hty hbytes _ m)
    have hnil : (c.insn.rd, (0 : Reg)) ∈ ([] : List (Fin 32 × Reg)) :=
      (congrArg (fun writes => (c.insn.rd, (0 : Reg)) ∈ writes) (hcall _)).mp hzero
    cases hnil
  · rw [if_neg hreserved] at hzero
    have hone : (c.insn.rd, (0 : Reg)) ∈ [(c.insn.rd, (1 : Reg))] := hzero
    simp at hone

end Handlers

/-! ## What an instruction does to the reservation -/

/-- The reservation is the same. -/
def SameReservation (m m' : Machine β) : Prop := m'.hart.loadReservation = m.hart.loadReservation

instance : Std.Refl (SameReservation (β := β)) := ⟨fun _ => rfl⟩

instance : IsTrans (Machine β) SameReservation := ⟨fun _ _ _ hab hbc => Eq.trans hbc hab⟩

/-- The acts that make no reservation. -/
def Act.KeepsReservation : Act → Prop
  | .setLoadReservation _ => False
  | _ => True

theorem actKeeps_reservation (P : Platform β) :
    ActKeeps P Act.KeepsReservation SameReservation where
  store := {
    read := ⟨fun _ _ _ _ _ _ => rfl, fun _ _ _ _ _ => rfl, fun _ _ => rfl, fun _ _ _ => rfl,
      fun _ _ => rfl⟩
    write := fun _ _ => rfl
    device := fun _ _ _ _ => rfl }
  hart {a f} ha hf m := by
    change (f m.hart).loadReservation = m.hart.loadReservation
    cases a with
    | setLoadReservation => exact ha.elim
    | writeXpr reg value =>
        cases hf
        unfold Hart.writeXpr
        split <;> rfl
    | setFpExceptions xlen flags =>
        cases hf
        unfold Hart.setFpExceptions
        split <;> rfl
    | writeFpr | setSerialized | setStatePc | leaveDebugMode =>
        all_goals
          cases hf
          rfl
    | hart | setPrivilege | load | store | amo | getCsr | setCsr | flushTlb | flushIcache =>
        all_goals cases hf
  setPrivilege _ _ := .bind (.bind (.modify fun _ => rfl) fun _ => .modify fun _ => rfl)
    fun _ => .modify fun _ => rfl
  setCsr which value _ := (setCsr_csrFrame which value).imp fun _ _ h => by
    rw [SameReservation, h.hart]
  flushTlb := .bind (.modify fun _ => rfl) fun _ => .modify fun _ => rfl
  flushIcache := .modify fun _ => rfl

/-- A handler that is not a load-reserved makes no reservation. -/
theorem insnProgram_reservation {name : InsnName} (hname : isLoadReserved name = false)
    (xlen : Xlen) (insn : Insn) (pc : Reg) :
    Keeps SameReservation ((insnProgram F name xlen insn pc).run (Act.exec P)) := by
  apply Program.keeps_run fun a ha => (actKeeps_reservation P).exec ha
  rcases uses_ordinary_or_control (handler_family F name _) with huses | huses
  · apply huses.imp
    intro a ha
    cases a with
    | setLoadReservation =>
        have hlr : isLoadReserved name = true := ha
        rw [hname] at hlr
        cases hlr
    | _ => trivial
  · apply huses.imp
    intro a ha
    cases ha
    all_goals trivial

/-- The handlers of the load-reserved. -/
theorem handler_loadReserved (F : SoftFloat) {name : InsnName}
    (hname : isLoadReserved name = true) :
    ∃ needs ty, (∀ c, handler F name c = loadReserved needs ty c) ∧
      ∀ xlen insn c h, c.xlen = xlen → c.insn = insn →
        ((∀ need ∈ needs, need.holds c h = true) ∧
            reservedBy (insnFunc xlen name, insn) h = some (h.xpr insn.rs1)) ∨
          ((∃ need ∈ needs, need.holds c h = false) ∧
            reservedBy (insnFunc xlen name, insn) h = none) := by
  have hnames : name = .lrD ∨ name = .lrW := by simpa [isLoadReserved] using hname
  rcases hnames with rfl | rfl
  · refine ⟨[.extension 'A', .rv64], int64, fun _ => rfl, ?_⟩
    rintro xlen insn c h hxlen -
    cases hext : h.supportsExtension 'A' with
    | false =>
        refine .inr ⟨⟨.extension 'A', by simp, hext⟩, ?_⟩
        cases xlen <;> simp [reservedBy, insnFunc, hext]
    | true =>
        cases xlen with
        | rv32 => exact .inr ⟨⟨.rv64, by simp, by simp [Need.holds, hxlen]⟩, rfl⟩
        | rv64 =>
            refine .inl ⟨?_, ?_⟩
            · simp [Need.holds, hxlen, hext]
            · simp [reservedBy, insnFunc, hext]
  · refine ⟨[.extension 'A'], int32, fun _ => rfl, ?_⟩
    rintro xlen insn c h hxlen -
    cases hext : h.supportsExtension 'A' with
    | false =>
        refine .inr ⟨⟨.extension 'A', by simp, hext⟩, ?_⟩
        cases xlen <;> simp [reservedBy, insnFunc, hext]
    | true =>
        refine .inl ⟨by simp [Need.holds, hext], ?_⟩
        cases xlen <;> simp [reservedBy, insnFunc, hext]

theorem reservedBy_none {name : InsnName} (hname : isLoadReserved name = false) (xlen : Xlen)
    (insn : Insn) (h : Hart) : reservedBy (insnFunc xlen name, insn) h = none := by
  have hD : name ≠ .lrD := by
    rintro rfl
    cases hname
  have hW : name ≠ .lrW := by
    rintro rfl
    cases hname
  cases xlen <;> simp [reservedBy, insnFunc, hD, hW]

/-- What an instruction does to the reservation. -/
def ReservationAfter (fetch : Decode.InsnFunc × Insn) (m m' : Machine β) : Prop :=
  m'.hart.loadReservation = (reservedBy fetch m.hart).getD m.hart.loadReservation

/-- **The reservation.**  A load-reserved makes it, whether its load succeeds or not; any other
instruction leaves it alone. -/
theorem executeInsn_reservation (pc : Reg) (fetch : Decode.InsnFunc × Insn) (m : Machine β) :
    Ensures (executeInsn P F pc fetch) m (fun _ => ReservationAfter fetch m)
      fun _ => ReservationAfter fetch m := by
  apply executeInsn_ensures_of_call fun _ _ h => h
  have hkeeps {α : Type} {x : M β α} (hx : Keeps SameReservation x)
      (hnone : reservedBy fetch m.hart = none) :
      Ensures x m (fun _ => ReservationAfter fetch m) fun _ => ReservationAfter fetch m := by
    unfold ReservationAfter
    rw [hnone]
    exact ensures_iff.mpr ⟨fun _ _ => hx.ok, fun _ _ => hx.error⟩
  have hprogram (xlen : Xlen) (name : InsnName) (hfunc : fetch.1 = insnFunc xlen name) :
      Ensures (callFunc P F fetch.1 fetch.2 pc) m (fun _ => ReservationAfter fetch m)
        fun _ => ReservationAfter fetch m := by
    obtain ⟨func, insn⟩ := fetch
    obtain rfl : func = insnFunc xlen name := hfunc
    rw [callFunc_insnFunc]
    cases hname : isLoadReserved name with
    | false => exact hkeeps (insnProgram_reservation hname ..) (reservedBy_none hname xlen insn _)
    | true =>
        obtain ⟨needs, ty, hhandler, hcases⟩ := handler_loadReserved F hname
        rw [insnProgram, hhandler]
        unfold ReservationAfter
        rcases hcases xlen insn ⟨xlen, insn, pc, _⟩ m.hart rfl rfl with
          ⟨hneeds, hsome⟩ | ⟨hfails, hnone⟩
        · rw [hsome]
          exact loadReserved_reserves ty hneeds
        · rw [hnone]
          exact .of_error (run_requireAll_of_fails _ hfails) rfl
  obtain ⟨func, insn⟩ := fetch
  cases func with
  | rv32 name => exact hprogram .rv32 name rfl
  | rv64 name => exact hprogram .rv64 name rfl
  | custom n => exact hkeeps (.throw _) rfl
  | illegalInstruction => exact hkeeps (.throw _) rfl

/-! ## What a step does to the reservation -/

/-- The reservation is at this address, or has been given up. -/
def ReservedAtMost (a : Reg) (m : Machine β) : Prop :=
  m.hart.loadReservation = a ∨ m.hart.loadReservation = -1

theorem takeTrap_reservedAtMost (a : Reg) (t : Trap) (epc : Reg) :
    Keeps (Stable (ReservedAtMost a)) (takeTrap t epc : M β Unit) := by
  refine keeps_stable_iff.mpr fun m hm => ?_
  by_cases henters : t.cause = 3 ∧ ebreakEnters m.hart
  · exact .of_ok (run_takeTrap_enters henters epc) hm
  · cases hdebug : m.hart.inDebugMode with
    | true => exact .of_ok (run_takeTrap_inDebugMode hdebug henters epc) hm
    | false =>
        refine .of_ok (run_takeTrap t epc hdebug henters) (.inr ?_)
        unfold Hart.afterTrap
        split <;> rfl

/-- Everything but the instructions leaves the reservation alone or gives it up. -/
theorem machineParts_reservation (P : Platform β) (a : Reg) :
    MachineParts P (ReservedAtMost a) fun _ => True := by
  have hfetch {α : Type} {x : M β α} (hx : Keeps FetchKept x) :
      Keeps (Stable (ReservedAtMost a)) x := hx.imp fun m m' h hm => by
    unfold ReservedAtMost at hm ⊢
    rw [h.hart]
    exact hm
  exact {
    bookkeeping := fun _ _ _ _ h => h
    unmatch := fun h => h
    load := fun pc m hm => ((hfetch ((refillKeeps_kept P).loadInsn pc)).ensures hm).imp
      (fun _ _ h => ⟨h, trivial⟩) fun _ _ h => h
    lookup := fun pc => hfetch ((refillKeeps_kept P).accessIcache pc)
    entry := fun _ _ => trivial
    refill := fun pc i => hfetch ((refillKeeps_kept P).refillIcache pc i)
    enterDebugMode := fun cause => keeps_stable_iff.mpr fun m hm =>
      .of_ok (run_enterDebugMode cause m) hm
    takeTrap := takeTrap_reservedAtMost a }

/-- After the next step the reservation is the one that the instruction at the point makes, or
else the one before it, unless it has been given up. -/
theorem reservation_next {p : Point β} (hcall : ∀ m, p ≠ .idle m) :
    ReservedAtMost (p.reserves.getD p.machine.hart.loadReservation) (p.next P F).machine := by
  have hrules (a : Reg) : StepRules P F (fun p => ∀ site n fetch s, p ≠ .execute site n fetch s)
      (ReservedAtMost a) (fun s => ReservedAtMost a s.1) (fun _ s => ReservedAtMost a s.1)
      fun _ => True :=
    (machineParts_reservation P a).stepRules _ fun hcond _ _ => absurd rfl (hcond _ _ _ _)
  cases p with
  | execute site n fetch s =>
      obtain ⟨m, l⟩ := s
      let a := (reservedBy fetch m.hart).getD m.hart.loadReservation
      rcases (executeInsn_reservation (P := P) (F := F) l.pc fetch m).cases with
        ⟨npc, m', hrun, hafter⟩ | ⟨e, m', hrun, hafter⟩
      · rw [Point.next, hrun]
        apply PointInv.machine
        exact (hrules a).ofReturned site n (.inl hafter)
      · rw [Point.next, hrun]
        cases site with
        | slow | fast | restart => all_goals exact .inl hafter
  | idle m => exact absurd rfl (hcall m)
  | head | slow | fast | caught | action | stopped =>
      all_goals
        apply PointInv.machine
        exact (hrules _).next hcall (by simp) (PointInv.of_machine (.inl rfl))

/-- A reservation that stands after a step of the hart was made by the instruction at the point,
or stood before and the instruction makes none. -/
theorem reservation_step {p p' : Point β} (hstep : HartStep P F p p') {a : Reg} (ha : a ≠ -1)
    (hnow : p'.machine.hart.loadReservation = a) :
    p.reserves = some a ∨ p.machine.hart.loadReservation = a ∧ p.reserves = none := by
  have hkept {m m' : Machine β}
      (h : ReservedAtMost m.hart.loadReservation m') (hnow : m'.hart.loadReservation = a) :
      m.hart.loadReservation = a := by
    rcases h with h | h
    · exact h.symm.trans hnow
    · exact absurd (hnow.symm.trans h) ha
  cases hstep with
  | @method m m' hcall =>
      refine .inr ⟨hkept ?_ hnow, rfl⟩
      have hcsr (which val : Reg) : Keeps (Stable (ReservedAtMost m.hart.loadReservation))
          (setCsr which val : M β Unit) := (setCsr_csrFrame which val).imp fun m m' h hm => by
        unfold ReservedAtMost at hm ⊢
        rw [h.hart]
        exact hm
      exact hcall.keeps hcsr (takeTrap_reservedAtMost _)
        (machineParts_reservation P _).enterDebugMode (.inl rfl)
  | next hnext =>
      cases hnext with
      | @interfere m m' h =>
          refine .inr ⟨hkept ?_ hnow, rfl⟩
          obtain ⟨mip, debug, reservation, hreservation, hhart⟩ := h.hart
          change ReservedAtMost m.hart.loadReservation m'
          unfold ReservedAtMost
          rw [hhart]
          exact hreservation
      | call n h =>
          refine .inr ⟨hkept ?_ hnow, rfl⟩
          exact ((machineParts_reservation P _).stepPrologue n).ok h (.inl rfl)
      | inside _ hcall =>
          have hafter := reservation_next (P := P) (F := F) hcall
          cases hreserves : p.reserves with
          | some b =>
              rw [hreserves] at hafter
              rcases hafter with h | h
              · exact .inl (congrArg some (h.symm.trans hnow))
              · exact absurd (hnow.symm.trans h) ha
          | none =>
              rw [hreserves] at hafter
              exact .inr ⟨hkept hafter hnow, rfl⟩

/-! ## Successful store-conditionals -/

/-- The handlers of the store-conditionals. -/
theorem handler_storeConditional (F : SoftFloat) {fetch : Decode.InsnFunc × Insn} {h : Hart}
    {a : Reg} (hsome : conditionalOn fetch h = some a) :
    ∃ xlen name needs ty, fetch.1 = insnFunc xlen name ∧ a = h.xpr fetch.2.rs1 ∧
      (∀ c, handler F name c = storeConditional needs ty c) ∧ 1 < ty.bytes ∧ ty.bytes ≤ 8 ∧
        ∀ c, c.xlen = xlen → ∀ need ∈ needs, need.holds c h = true := by
  obtain ⟨func, insn⟩ := fetch
  unfold conditionalOn at hsome
  cases hext : h.supportsExtension 'A' with
  | false => split at hsome <;> simp [hext] at hsome
  | true =>
      rw [hext] at hsome
      split at hsome
      · rename_i hfunc
        exact ⟨.rv32, .scW, [.extension 'A'], uint32, hfunc, (Option.some.inj hsome).symm,
          fun _ => rfl, by decide, by decide, by simp [Need.holds, hext]⟩
      · rename_i hfunc
        exact ⟨.rv64, .scW, [.extension 'A'], uint32, hfunc, (Option.some.inj hsome).symm,
          fun _ => rfl, by decide, by decide, by simp [Need.holds, hext]⟩
      · rename_i hfunc
        exact ⟨.rv64, .scD, [.extension 'A', .rv64], uint64, hfunc, (Option.some.inj hsome).symm,
          fun _ => rfl, by decide, by decide, by simp +contextual [Need.holds, hext]⟩
      · cases hsome

/-- A store-conditional that succeeds has stored where the reservation stands. -/
theorem storesConditionally_reserved {p : Point β} {a : Reg}
    (h : p.storesConditionally P F = some a) :
    p.machine.hart.loadReservation = a ∧ a ≠ -1 ∧ p.conditionalOn = some a := by
  cases p with
  | execute site n fetch s =>
      obtain ⟨m, l⟩ := s
      obtain ⟨func, insn⟩ := fetch
      change (if _ then _ else _) = some a at h
      split_ifs at h with hzero
      obtain ⟨xlen, name, needs, ty, hfunc, ha, hhandler, hlow, hhigh, hneeds⟩ :=
        handler_storeConditional F h
      obtain rfl : func = insnFunc xlen name := hfunc
      have hwrites : (insn.rd, (0 : Reg)) ∈
          (insnProgram F name xlen insn l.pc).log (Act.exec P) Act.xprWrites m := by
        cases xlen <;> exact hzero
      rw [insnProgram, hhandler] at hwrites
      have hstores := storeConditional_stores hlow hhigh (hneeds _ rfl) hwrites
      rw [ha]
      exact ⟨hstores.1, hstores.2, ha ▸ h⟩
  | idle | head | slow | fast | caught | action | stopped => all_goals cases h

/-- A reservation that stands in a run from the construction of a hart was made by the last
load-reserved, and has stood since. -/
theorem reserved_since {cfg : IsaConfig} {halt : Bool} {dram : Reg → BitVec 8} {dev : β}
    {r : ℕ → Point β} {len : ℕ} (hrun : IsRun (HartStep P F) r len)
    (hinit : r 0 = .idle (cfg.machine halt dram dev)) {a : Reg} (ha : a ≠ -1) {k : ℕ}
    (hk : k ≤ len) (hnow : (r k).machine.hart.loadReservation = a) :
    ∃ j < k, (r j).reserves = some a ∧
      (∀ i, j < i → i ≤ k → (r i).machine.hart.loadReservation = a) ∧
        ∀ i, j < i → i < k → (r i).reserves = none := by
  refine IsRun.since (I := fun p : Point β => p.machine.hart.loadReservation = a)
    (A := fun p => p.reserves = some a) (Q := fun p => p.reserves = none) ?_ ?_ hk hnow
  · rw [hinit]
    exact fun hreset => ha hreset.symm
  · exact fun k hk hnext => reservation_step (hrun k hk) ha hnext

/-- After a store-conditional the hart executes a load-reserved, or gives its reservation up,
before it executes a store-conditional on the reserved address. -/
def SparesReservation (P : Platform β) (F : SoftFloat) (r : ℕ → Point β) (len : ℕ) : Prop :=
  ∀ k ≤ len, ∀ i < k, ∀ a, (r i).endsConditional P F = true → (r k).conditionalOn = some a →
    (∃ j < k, i < j ∧ (r j).reserves ≠ none) ∨
      (∃ j ≤ k, i < j ∧ (r j).machine.hart.loadReservation = -1) ∨
        (r k).machine.hart.loadReservation ≠ a

/-- **Each success has a load-reserved of its own** in every run that meets the condition: there
is one for the same address, with neither a store-conditional nor a load-reserved in between. -/
theorem store_conditional_once {cfg : IsaConfig} {halt : Bool} {dram : Reg → BitVec 8} {dev : β}
    {r : ℕ → Point β} {len : ℕ} (hrun : IsRun (HartStep P F) r len)
    (hinit : r 0 = .idle (cfg.machine halt dram dev)) (hspares : SparesReservation P F r len) :
    ∀ k ≤ len, ∀ a, (r k).storesConditionally P F = some a →
      ∃ j < k, (r j).reserves = some a ∧
        ∀ i, j < i → i < k → (r i).endsConditional P F = false ∧ (r i).reserves = none := by
  intro k hk a hstores
  obtain ⟨hnow, ha, hconditional⟩ := storesConditionally_reserved hstores
  obtain ⟨j, hj, hmade, hheld, hquiet⟩ := reserved_since hrun hinit ha hk hnow
  refine ⟨j, hj, hmade, fun i hlo hhi => ⟨?_, hquiet i hlo hhi⟩⟩
  rw [Bool.eq_false_iff]
  intro hends
  rcases hspares k hk i hhi a hends hconditional with
    ⟨i', hi', hlater, hreserves⟩ | ⟨i', hi', hlater, hgiven⟩ | hother
  · exact hreserves (hquiet i' (by omega) hi')
  · exact ha ((hheld i' (by omega) hi').symm.trans hgiven)
  · exact hother hnow

/-- `lui x12, 0x80000`, `lr.w x5, (x12)`, `sc.w x6, x0, (x12)` and `sc.w x7, x0, (x12)`. -/
def conditionalTwice : Platform Bool := .rom [0x80000637, 0x100622af, 0x1806232f, 0x180623af]

def conditionalMachine : Machine Bool :=
  IsaConfig.machine ⟨.rv32, 0x40141129, false⟩ false (fun _ => 0) false

/-- A call of `step` for the program. -/
def conditionalRun : ℕ → Point Bool
  | 0 => .idle conditionalMachine
  | k + 1 => (Point.next conditionalTwice .zeros)^[k] (.head 4 conditionalMachine)

/-- The first of the two has the load-reserved of its own. -/
theorem first_conditional_once :
    (conditionalRun 7).storesConditionally conditionalTwice .zeros = some 0xffffffff80000000 ∧
      ∃ j < 7, (conditionalRun j).reserves = some 0xffffffff80000000 ∧ ∀ i, j < i → i < 7 →
        (conditionalRun i).endsConditional conditionalTwice .zeros = false ∧
          (conditionalRun i).reserves = none := by
  have hfacts : (∀ k < 6, (conditionalRun (k + 1)).isIdle = false) ∧
      (∀ k < 7, (conditionalRun k).endsConditional conditionalTwice .zeros = false) ∧
      (conditionalRun 7).storesConditionally conditionalTwice .zeros = some 0xffffffff80000000 := by
    decide +kernel
  obtain ⟨hinside, hends, hstores⟩ := hfacts
  have hrun : IsRun (HartStep conditionalTwice .zeros) conditionalRun 7 := fun k hk =>
    .next (isRun_call _ _ (n := 4) rfl rfl (fun _ => rfl) hinside k hk)
  have hspares : SparesReservation conditionalTwice .zeros conditionalRun 7 := by
    intro k hk i hi a hended
    rw [hends i (by omega)] at hended
    cases hended
  exact ⟨hstores, store_conditional_once hrun rfl hspares 7 le_rfl _ hstores⟩

/-- The second one succeeds as well. -/
theorem second_conditional_succeeds :
    IsRun (HartStep conditionalTwice .zeros) conditionalRun 9 ∧
      conditionalRun 0 = .idle conditionalMachine ∧
      (conditionalRun 9).storesConditionally conditionalTwice .zeros = some 0xffffffff80000000 ∧
      ¬∃ j < 9, (conditionalRun j).reserves = some 0xffffffff80000000 ∧ ∀ i, j < i → i < 9 →
        (conditionalRun i).endsConditional conditionalTwice .zeros = false := by
  have hfacts : (∀ k < 8, (conditionalRun (k + 1)).isIdle = false) ∧
      (∀ j < 9, 7 ≤ j → (conditionalRun j).reserves = none) ∧
      (conditionalRun 7).endsConditional conditionalTwice .zeros = true ∧
      (conditionalRun 9).storesConditionally conditionalTwice .zeros = some 0xffffffff80000000 := by
    decide +kernel
  obtain ⟨hinside, hlast, hended, hstores⟩ := hfacts
  have hrun : IsRun (HartStep conditionalTwice .zeros) conditionalRun 9 := fun k hk =>
    .next (isRun_call _ _ (n := 4) rfl rfl (fun _ => rfl) hinside k hk)
  refine ⟨hrun, rfl, hstores, ?_⟩
  rintro ⟨j, hj, hmade, hquiet⟩
  rcases Nat.lt_or_ge j 7 with hlt | hge
  · rw [hquiet 7 hlt (by decide)] at hended
    cases hended
  · rw [hlast j hj hge] at hmade
    cases hmade

end SpikeSim.Riscv
