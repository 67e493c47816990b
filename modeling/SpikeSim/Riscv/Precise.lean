/-
# Precise exceptions

A handler that throws a trap can be run again: it has changed no register, no CSR
and no memory, apart from the accessed and dirty bits that its walks have set and
from `serialized` and the load reservation.

The reason is the order in which a handler works.  Reads and checks come first;
after the first act that changes what an instruction is restarted from, nothing
can throw.  The order is a property of the program (`Program.Atomic`), so it is
read off the forms of the handlers; what is left is that an act which throws has
not written before it does.
-/

import SpikeSim.Riscv.Access
import SpikeSim.Riscv.CsrEffect
import SpikeSim.Riscv.Families

namespace SpikeSim.Riscv

open Handler Relation

variable {β : Type} (P : Platform β)

/-! ## The order of the acts -/

/-- Acts after which the instruction can still be restarted. -/
def Act.quiet : Act → Bool
  | .hart | .setSerialized _ | .setLoadReservation _ | .load .. | .getCsr _ | .flushTlb
  | .flushIcache => true
  | _ => false

/-- Acts that return.  A write of `sptbr` may abort. -/
def Act.total : Act → Bool
  | .load .. | .store .. | .amo .. | .getCsr _ => false
  | .setCsr which _ => which == Csr.mstatus.num
  | _ => true

/-- The handler cannot throw once it has begun to write. -/
abbrev Handler.ChecksFirst {α : Type} (p : Handler α) : Prop := p.Atomic Act.quiet Act.total

section ChecksFirst

variable {α : Type} {c : Ctx}

theorem checksFirst_readHart {k : Hart → Handler α} (h : ∀ s, (k s).ChecksFirst) :
    (readHart >>= k).ChecksFirst := h

theorem checksFirst_requireAll (needs : List Need) {k : Unit → Handler α}
    (h : (k ()).ChecksFirst) : (requireAll c needs >>= k).ChecksFirst := by
  induction needs with
  | nil => exact h
  | cons need rest ih =>
      intro s
      change ((require (need.holds c s) >>= fun _ => requireAll c rest) >>= k).ChecksFirst
      cases need.holds c s with
      | false => trivial
      | true => exact ih

theorem checksFirst_setPc (target : Reg) {k : Reg → Handler α} (h : ∀ npc, (k npc).ChecksFirst) :
    (setPc c target >>= k).ChecksFirst := by
  intro s
  change ((if _ then _ else _) >>= k).ChecksFirst
  split
  · trivial
  · exact h _

theorem checksFirst_roundingMode {k : Reg → Handler α} (h : ∀ rm, (k rm).ChecksFirst) :
    (roundingMode c >>= k).ChecksFirst := by
  intro s
  let rm := if c.insn.rm = 7 then s.frm.setWidth 64 else c.insn.rm
  change ((if 4 < rm then illegal else pure rm) >>= k).ChecksFirst
  by_cases hvalid : 4 < rm
  · rw [if_pos hvalid]
    trivial
  · rw [if_neg hvalid]
    exact h _

theorem checksFirst_setPcAndSerialize (target : Reg) {k : Reg → Handler α}
    (h : ∀ npc, (k npc).Total Act.total) : (setPcAndSerialize c target >>= k).ChecksFirst := by
  unfold setPcAndSerialize
  rw [Program.bind_assoc]
  exact checksFirst_setPc target fun _ _ => h _

theorem total_writeDest (value : Reg) (dest : Dest) {k : Unit → Handler α}
    (h : (k ()).Total Act.total) : (writeDest c value dest >>= k).Total Act.total := by
  cases dest with
  | x reg => exact ⟨rfl, fun _ => h⟩
  | f reg => exact ⟨rfl, fun _ => h⟩

theorem checksFirst_writeDest (value : Reg) (dest : Dest) {k : Unit → Handler α}
    (h : (k ()).Total Act.total) : (writeDest c value dest >>= k).ChecksFirst := by
  cases dest with
  | x reg => exact fun _ => h
  | f reg => exact fun _ => h

theorem checksFirst_trapReturn (prv : Prv) (epc : Hart → Reg) (ppMask pieMask : Reg) :
    (trapReturn prv epc ppMask pieMask c).ChecksFirst := by
  refine checksFirst_requireAll _ (checksFirst_readHart fun s => ?_)
  exact checksFirst_setPcAndSerialize _ fun npc => ⟨rfl, fun _ => ⟨rfl, fun _ => trivial⟩⟩

theorem checksFirst_family {name : InsnName} {p : Handler Reg} (h : Family c name p) :
    p.ChecksFirst := by
  cases h with
  | compute needs dest f =>
      exact checksFirst_requireAll needs (checksFirst_readHart fun s _ => trivial)
  | computeFp needs f =>
      exact checksFirst_requireAll needs (checksFirst_readHart fun s _ => trivial)
  | fpRounded needs dest f =>
      refine checksFirst_requireAll needs (checksFirst_roundingMode fun rm => ?_)
      refine checksFirst_readHart fun s => checksFirst_writeDest _ _ ?_
      exact ⟨rfl, fun _ => trivial⟩
  | fpExact needs dest f =>
      refine checksFirst_requireAll needs (checksFirst_readHart fun s => ?_)
      exact checksFirst_writeDest _ _ ⟨rfl, fun _ => trivial⟩
  | loadTo needs ty addr dest =>
      refine checksFirst_requireAll needs (checksFirst_readHart fun s value => ?_)
      exact checksFirst_writeDest _ _ trivial
  | storeFrom needs ty addr value =>
      exact checksFirst_requireAll needs (checksFirst_readHart fun s _ => trivial)
  | amoOp needs ty f result =>
      exact checksFirst_requireAll needs (checksFirst_readHart fun s _ => ⟨rfl, fun _ => trivial⟩)
  | lrD | lrW =>
      all_goals exact checksFirst_requireAll _ (checksFirst_readHart fun s _ _ _ => trivial)
  | scD | scW =>
      all_goals
        refine checksFirst_requireAll _ (checksFirst_readHart fun s => ?_)
        dsimp only
        split
        · exact fun _ => ⟨rfl, fun _ => trivial⟩
        · exact fun _ => trivial
  | branch needs taken target =>
      refine checksFirst_requireAll needs (checksFirst_readHart fun s => ?_)
      split
      · rw [← Program.bind_ret (setPc c (target c))]
        exact checksFirst_setPc _ fun _ => trivial
      · trivial
  | jump needs target link =>
      refine checksFirst_requireAll needs (checksFirst_readHart fun s => ?_)
      refine checksFirst_setPc _ fun npc => ?_
      cases link c with
      | none => trivial
      | some reg => exact fun _ => trivial
  | csrOp write new =>
      refine checksFirst_readHart fun s => ?_
      split
      · trivial
      · intro _
        change (if _ then _ else _ : Handler Reg).ChecksFirst
        split
        · trivial
        · intro old
          change (if _ then _ else _ : Handler Reg).ChecksFirst
          split
          · exact fun _ => ⟨rfl, fun _ => trivial⟩
          · exact fun _ => trivial
  | mret => exact checksFirst_trapReturn _ _ _ _
  | sret => exact checksFirst_trapReturn _ _ _ _
  | dret =>
      refine checksFirst_requireAll _ (checksFirst_readHart fun s => ?_)
      exact checksFirst_setPcAndSerialize _ fun npc => ⟨rfl, fun _ => ⟨rfl, fun _ => trivial⟩⟩
  | ebreak => trivial
  | cEbreak => exact checksFirst_requireAll _ trivial
  | ecall => exact checksFirst_readHart fun s => trivial
  | fence => trivial
  | wfi => trivial
  | fenceI => exact fun _ => trivial
  | sfenceVm => exact checksFirst_requireAll _ fun _ => trivial

end ChecksFirst

/-! ## What the acts leave alone -/

/-- All that a handler which throws has changed: `serialized`, the load reservation
and the marks of its walks. -/
structure Precise (m m' : Machine β) : Prop where
  hart : m'.hart = { m.hart with
    serialized := m'.hart.serialized
    loadReservation := m'.hart.loadReservation }
  dram : ReflTransGen (WalkUpdate P m.hart) m.dram m'.dram

instance : Std.Refl (Precise P) where
  refl _ := ⟨rfl, .refl⟩

instance : IsTrans (Machine β) (Precise P) where
  trans a b c hab hbc := by
    constructor
    · rw [hbc.hart, hab.hart]
    · -- A walk reads neither of the two fields.
      have hwalks : WalkUpdate P b.hart = WalkUpdate P a.hart := by
        rw [hab.hart]
        rfl
      exact hab.dram.trans (hwalks ▸ hbc.dram)

variable {P}

theorem ReadOnly.precise {m m' : Machine β} (h : ReadOnly P m m') : Precise P m m' :=
  ⟨by rw [h.hart], h.dram⟩

theorem quiet_precise {a : Act} {m m' : Machine β} {r : a.Result} (hquiet : a.quiet = true)
    (h : a.exec P m = .ok r m') : Precise P m m' := by
  cases a with
  | hart | setSerialized _ | setLoadReservation _ =>
      cases h
      exact ⟨rfl, .refl⟩
  | load ty addr => exact ((load_readOnly P ty addr).ok h).precise
  | getCsr which => exact ((getCsr_readOnly P which).ok h).precise
  | flushTlb => exact ((flushTlb_readOnly P).ok h).precise
  | flushIcache => exact ((flushIcache_readOnly P).ok h).precise
  | _ => cases hquiet

theorem act_throws (hbus : P.RefusalsKeepMip) {a : Act} {m m' : Machine β} {t : Trap}
    (h : a.exec P m = .error (.trap t) m') : Precise P m m' := by
  cases a with
  | load ty addr => exact ((load_readOnly P ty addr).error h).precise
  | getCsr which => exact ((getCsr_readOnly P which).error h).precise
  | store ty addr value => exact ((store_throws hbus ty addr value).error h).precise
  | amo ty addr f => exact ((amo_throws hbus ty addr f).error h).precise
  | setCsr which value =>
      -- A write of a CSR may abort, which is not a trap.
      change setCsr which value m = _ at h
      rcases setCsr_cases which value m with ⟨_, habort⟩ | ⟨m'', hok, _⟩
      · rw [habort] at h
        cases h
      · rw [hok] at h
        cases h
  | _ => cases h

theorem total_returns {a : Act} (htotal : a.total = true) (m : Machine β) :
    ∃ r m', a.exec P m = .ok r m' := by
  cases a with
  | load _ _ | store _ _ _ | amo _ _ _ | getCsr _ => cases htotal
  | setCsr which value =>
      obtain rfl : which = Csr.mstatus.num := by simpa [Act.total] using htotal
      rcases setCsr_cases Csr.mstatus.num value m with ⟨hsptbr, _⟩ | ⟨m', hok, _⟩
      · rw [Csr.ofNum_num] at hsptbr
        cases hsptbr
      · exact ⟨(), m', hok⟩
  | _ => exact ⟨_, _, rfl⟩

/-! ## Handlers that throw -/

/-- A handler that throws has changed nothing it cannot be restarted from. -/
theorem insnProgram_precise (hbus : P.RefusalsKeepMip) {F : SoftFloat} {name : InsnName}
    {xlen : Xlen} {insn : Insn} {pc : Reg} {m m' : Machine β} {t : Trap}
    (h : (insnProgram F name xlen insn pc).run (Act.exec P) m = .error (.trap t) m') :
    Precise P m m' := by
  refine Program.run_atomic (E := fun e => ∃ t, e = .trap t) ?_ ?_ ?_
    (checksFirst_family (handler_family F name _)) ⟨t, rfl⟩ h
  · intro a m r m' hquiet hok
    exact quiet_precise hquiet hok
  · rintro a m e m' ⟨t, rfl⟩ herror
    exact act_throws hbus herror
  · intro a m htotal
    exact total_returns htotal m

/-- `take_trap` gives the load reservation up, unless it leaves for debug mode. -/
theorem takeTrap_loadReservation (t : Trap) (epc : Reg) {m : Machine β}
    (hdebug : m.hart.inDebugMode = false) :
    ∃ m', takeTrap t epc m = .ok () m' ∧ m'.hart.loadReservation =
      if t.cause = 3 ∧ ebreakEnters m.hart then m.hart.loadReservation else -1 := by
  by_cases henters : t.cause = 3 ∧ ebreakEnters m.hart
  · simp only [takeTrap, run_bind, run_getHart, run_record, if_pos henters]
    exact ⟨_, rfl, rfl⟩
  · simp only [takeTrap, run_bind, run_getHart, run_record, if_neg henters, hdebug]
    cases delegated m.hart t.cause with
    | false =>
        simp only [Bool.false_eq_true, if_false, run_bind, run_modifyHart, run_setMstatus,
          run_setPrivilege, yieldLoadReservation]
        exact ⟨_, rfl, rfl⟩
    | true =>
        simp only [Bool.false_eq_true, if_false, if_true, run_bind, run_modifyHart, run_setMstatus,
          run_setPrivilege, yieldLoadReservation]
        exact ⟨_, rfl, rfl⟩

/-- **Precise exceptions.** When a handler throws a trap, the registers, the CSRs and
the memory are as before, up to the marks of its walks; `take_trap` then resets the
load reservation, unless an `ebreak` leaves for debug mode. -/
theorem handler_throws_precise (hbus : P.RefusalsKeepMip) {F : SoftFloat} {name : InsnName}
    {xlen : Xlen} {insn : Insn} {pc : Reg} {m m' : Machine β} {t : Trap}
    (h : (insnProgram F name xlen insn pc).run (Act.exec P) m = .error (.trap t) m') :
    Precise P m m' ∧ ∀ epc, m.hart.inDebugMode = false →
      ∃ m'', takeTrap t epc m' = .ok () m'' ∧ m''.hart.loadReservation =
        if t.cause = 3 ∧ ebreakEnters m.hart then m'.hart.loadReservation else -1 := by
  have hprecise := insnProgram_precise hbus h
  refine ⟨hprecise, fun epc hdebug => ?_⟩
  have hdebug' : m'.hart.inDebugMode = false := by
    rw [hprecise.hart]
    exact hdebug
  have henters : ebreakEnters m'.hart = ebreakEnters m.hart := by
    rw [hprecise.hart]
    rfl
  rw [← henters]
  exact takeTrap_loadReservation t epc hdebug'

/-- The trap that a run ended with. -/
def thrownTrap {α : Type} : EStateM.Result Exn (Machine β) α → Option Trap
  | .error (.trap t) _ => some t
  | _ => none

theorem exists_of_thrownTrap {α : Type} {r : EStateM.Result Exn (Machine β) α} {t : Trap}
    (h : thrownTrap r = some t) : ∃ m', r = .error (.trap t) m' := by
  unfold thrownTrap at h
  split at h
  · rename_i m'
    cases h
    exact ⟨m', rfl⟩
  · cases h

/-- A misaligned `lw x1, 1(x0)`. -/
theorem misaligned_lw_precise :
    let m := Machine.reset .rv64 0 false (Decode.freshDecoder false) (fun _ => 0) ()
    ∃ m', (insnProgram .zeros .lw .rv64 ⟨0x00102083⟩ 0).run (Act.exec .bare) m =
        .error (.trap (.loadAddressMisaligned 1)) m' ∧
      Precise .bare m m' ∧ ∀ epc, m.hart.inDebugMode = false →
        ∃ m'', takeTrap (.loadAddressMisaligned 1) epc m' = .ok () m'' ∧
          m''.hart.loadReservation =
            if (4 : Reg) = 3 ∧ ebreakEnters m.hart then m'.hart.loadReservation else -1 := by
  intro m
  have hthrown : thrownTrap ((insnProgram .zeros .lw .rv64 ⟨0x00102083⟩ 0).run
      (Act.exec .bare) m) = some (.loadAddressMisaligned 1) := by
    decide +kernel
  obtain ⟨m', hrun⟩ := exists_of_thrownTrap hthrown
  exact ⟨m', hrun, handler_throws_precise (fun _ _ _ _ _ _ => rfl) hrun⟩

/-- An `ebreak` outside of debug mode after which the reservation is still there. -/
theorem ebreak_keeps_reservation :
    ¬ ∀ (m m' m'' : Machine Unit) (t : Trap) (pc : Reg),
      (insnProgram .zeros .ebreak .rv64 ⟨0x00100073⟩ pc).run (Act.exec .bare) m =
          .error (.trap t) m' →
        m.hart.inDebugMode = false → takeTrap t pc m' = .ok () m'' →
          m''.hart.loadReservation = -1 := by
  intro hall
  let h := Hart.reset .rv64 0 false
  let m : Machine Unit := { Machine.reset .rv64 0 false (Decode.freshDecoder false) (fun _ => 0) () with
    hart := { h with loadReservation := 0x80000000, dcsr := { h.dcsr with ebreakm := true } } }
  have hreset := hall m m _ .breakpoint 0 rfl rfl rfl
  revert hreset
  decide

end SpikeSim.Riscv
