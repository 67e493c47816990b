/-
# What an instruction returns

A handler returns the address of the next instruction, or one of two sentinels that
ask for the pipeline to be serialized.  The sentinels are odd; from an even pc every
other value is even, and each sentinel comes from a few instructions only.

A handler that throws has left the hart as it was, up to `mip`, `serialized` and the
load reservation: it reads and checks first.
-/

import SpikeSim.Riscv.Fetch
import SpikeSim.Riscv.Precise

namespace SpikeSim.Riscv

open Handler

variable {β : Type}

/-! ## Even addresses -/

theorem isEven_iff_not_invalidPc (v : Reg) : IsEven v ↔ invalidPc v = false := by
  have hone : (1 : Reg) = BitVec.twoPow 64 0 := by decide
  unfold IsEven invalidPc
  rw [hone, BitVec.and_twoPow]
  cases v.getLsbD 0 <;> decide

theorem isEven_sextXlen {v : Reg} (h : IsEven v) (xlen : Xlen) : IsEven (sextXlen xlen v) := by
  have hbits : xlen.bits = 32 ∨ xlen.bits = 64 := by cases xlen <;> decide
  unfold IsEven at h ⊢
  unfold sextXlen
  rw [BitVec.getLsbD_sshiftRight]
  rcases hbits with hbits | hbits
  · rw [hbits]
    simpa using h
  · rw [hbits]
    simpa using h

theorem isEven_insnLength (bits : InsnBits) : IsEven (BitVec.ofNat 64 (insnLength bits)) := by
  unfold insnLength
  split_ifs
  all_goals decide

/-! ## What is returned -/

/-- The returns from a trap and from debug mode. -/
def isReturn (name : InsnName) : Bool := name ∈ [InsnName.mret, .sret, .dret]

/-- What a handler may return at an even pc. -/
inductive NextPc (name : InsnName) : Reg → Prop
  | even {npc : Reg} (h : IsEven npc) : NextPc name npc
  | before (h : isCsrOp name = true) : NextPc name pcSerializeBefore
  | after (h : isReturn name = true) : NextPc name pcSerializeAfter

theorem NextPc.valid {name : InsnName} {npc : Reg} (h : NextPc name npc) :
    IsEven npc ∨ npc = pcSerializeBefore ∨ npc = pcSerializeAfter := by
  cases h with
  | even h => exact .inl h
  | before => exact .inr (.inl rfl)
  | after => exact .inr (.inr rfl)

/-- The program returns such a value, and only a return sets the pc of the state. -/
abbrev MeetsNext {α : Type} (name : InsnName) (p : Handler α) (Q : α → Prop) : Prop :=
  p.Meets (fun _ _ => True) (fun a => isReturn name = false → ∀ pc, a ≠ .setStatePc pc) Q

section Forms

variable {c : Ctx} {name : InsnName}

theorem meetsNext_requireAll (needs : List Need) :
    MeetsNext name (requireAll c needs) fun _ => True := by
  induction needs with
  | nil => trivial
  | cons need rest ih =>
      refine ⟨nofun, fun h _ => ?_⟩
      change MeetsNext name (require _ >>= fun _ => requireAll c rest) _
      unfold require
      split
      · exact ih
      · trivial

theorem meetsNext_setPc {target : Reg} (heven : IsEven target) :
    MeetsNext name (setPc c target) IsEven := by
  refine ⟨nofun, fun h _ => ?_⟩
  change MeetsNext name (if _ then _ else _ : Handler Reg) _
  split
  · trivial
  · exact isEven_sextXlen heven c.xlen

theorem meetsNext_roundingMode : MeetsNext name (roundingMode c) fun _ => True := by
  refine ⟨nofun, fun h _ => ?_⟩
  change MeetsNext name (if 4 < _ then illegal else pure _ : Handler Reg) _
  split_ifs
  all_goals trivial

theorem meetsNext_writeDest (value : Reg) (dest : Dest) :
    MeetsNext name (writeDest c value dest) fun _ => True := by
  cases dest with
  | x reg => exact ⟨nofun, fun _ _ => trivial⟩
  | f reg => exact ⟨nofun, fun _ _ => trivial⟩

theorem meetsNext_setPcAndSerialize (hname : isReturn name = true) (target : Reg) :
    MeetsNext name (setPcAndSerialize c target) fun npc => npc = pcSerializeAfter := by
  have hset : MeetsNext name (setPc c target) fun _ => True := by
    refine ⟨nofun, fun h _ => ?_⟩
    change MeetsNext name (if _ then _ else _ : Handler Reg) _
    split <;> trivial
  refine hset.bind fun _ _ => ⟨fun hno => ?_, fun _ _ => rfl⟩
  rw [hname] at hno
  cases hno

theorem meetsNext_trapReturn (hname : isReturn name = true) (prv : Prv) (epc : Hart → Reg)
    (ppMask pieMask : Reg) :
    MeetsNext name (trapReturn prv epc ppMask pieMask c) (NextPc name) := by
  refine (meetsNext_requireAll _).bind fun _ _ => ⟨nofun, fun h _ => ?_⟩
  refine (meetsNext_setPcAndSerialize hname _).bind fun npc hnpc => ?_
  exact ⟨nofun, fun _ _ => ⟨nofun, fun _ _ => hnpc ▸ .after hname⟩⟩

theorem meetsNext_csrOp (hname : isCsrOp name = true) (hnpc : IsEven c.npc) (write : Ctx → Bool)
    (new : Ctx → Hart → Reg → Reg) : MeetsNext name (csrOp write new c) (NextPc name) := by
  refine ⟨nofun, fun h _ => ?_⟩
  change MeetsNext name (if _ then _ else _ : Handler Reg) _
  split
  · exact .before hname
  · refine ⟨nofun, fun _ _ => ?_⟩
    change MeetsNext name (if _ then _ else _ : Handler Reg) _
    split
    · trivial
    · refine ⟨nofun, fun old _ => ?_⟩
      change MeetsNext name (if _ then _ else _ : Handler Reg) _
      split
      · exact ⟨nofun, fun _ _ => ⟨nofun, fun _ _ => .even hnpc⟩⟩
      · exact ⟨nofun, fun _ _ => .even hnpc⟩

/-- **What a handler returns** at an even pc. -/
theorem meetsNext_family {p : Handler Reg} (h : Family c name p) (hpc : IsEven c.pc)
    (hnpc : IsEven c.npc) : MeetsNext name p (NextPc name) := by
  cases h with
  | compute needs dest f =>
      exact (meetsNext_requireAll needs).bind fun _ _ =>
        ⟨nofun, fun _ _ => ⟨nofun, fun _ _ => .even hnpc⟩⟩
  | computeFp needs f =>
      exact (meetsNext_requireAll needs).bind fun _ _ =>
        ⟨nofun, fun _ _ => ⟨nofun, fun _ _ => .even hnpc⟩⟩
  | fpRounded needs dest f =>
      refine (meetsNext_requireAll needs).bind fun _ _ => meetsNext_roundingMode.bind fun rm _ => ?_
      refine ⟨nofun, fun h _ => (meetsNext_writeDest ..).bind fun _ _ => ?_⟩
      exact ⟨nofun, fun _ _ => .even hnpc⟩
  | fpExact needs dest f =>
      refine (meetsNext_requireAll needs).bind fun _ _ => ⟨nofun, fun h _ => ?_⟩
      exact (meetsNext_writeDest ..).bind fun _ _ => ⟨nofun, fun _ _ => .even hnpc⟩
  | loadTo needs ty addr dest =>
      refine (meetsNext_requireAll needs).bind fun _ _ => ⟨nofun, fun h _ => ⟨nofun, ?_⟩⟩
      exact fun value _ => (meetsNext_writeDest ..).bind fun _ _ => .even hnpc
  | storeFrom needs ty addr value =>
      exact (meetsNext_requireAll needs).bind fun _ _ =>
        ⟨nofun, fun _ _ => ⟨nofun, fun _ _ => .even hnpc⟩⟩
  | amoOp needs ty f result =>
      refine (meetsNext_requireAll needs).bind fun _ _ => ⟨nofun, fun _ _ => ⟨nofun, ?_⟩⟩
      exact fun _ _ => ⟨nofun, fun _ _ => .even hnpc⟩
  | lrD | lrW =>
      all_goals
        refine (meetsNext_requireAll _).bind fun _ _ => ⟨nofun, fun _ _ => ⟨nofun, ?_⟩⟩
        exact fun _ _ => ⟨nofun, fun _ _ => ⟨nofun, fun _ _ => .even hnpc⟩⟩
  | scD | scW =>
      all_goals
        refine (meetsNext_requireAll _).bind fun _ _ => ⟨nofun, fun h _ => ?_⟩
        change MeetsNext _ (if _ then _ else _ : Handler Reg) _
        split
        · exact ⟨nofun, fun _ _ => ⟨nofun, fun _ _ => .even hnpc⟩⟩
        · exact ⟨nofun, fun _ _ => .even hnpc⟩
  | branch needs taken target heven =>
      refine (meetsNext_requireAll needs).bind fun _ _ => ⟨nofun, fun h _ => ?_⟩
      change MeetsNext name (if _ then _ else _ : Handler Reg) _
      split
      · exact (meetsNext_setPc (heven hpc)).imp fun _ => .even
      · exact .even hnpc
  | jump needs target link heven =>
      refine (meetsNext_requireAll needs).bind fun _ _ => ⟨nofun, fun h _ => ?_⟩
      refine (meetsNext_setPc (heven h hpc)).bind fun npc hset => ?_
      cases link c with
      | none => exact .even hset
      | some reg => exact ⟨nofun, fun _ _ => .even hset⟩
  | csrOp write new hname => exact meetsNext_csrOp hname hnpc write new
  | mret => exact meetsNext_trapReturn rfl _ _ _ _
  | sret => exact meetsNext_trapReturn rfl _ _ _ _
  | dret =>
      refine (meetsNext_requireAll _).bind fun _ _ => ⟨nofun, fun h _ => ?_⟩
      refine (meetsNext_setPcAndSerialize rfl _).bind fun npc hset => ?_
      exact ⟨nofun, fun _ _ => ⟨nofun, fun _ _ => hset ▸ .after rfl⟩⟩
  | ebreak => trivial
  | cEbreak => exact (meetsNext_requireAll _).bind fun _ _ => trivial
  | ecall => exact ⟨nofun, fun _ _ => trivial⟩
  | fence => exact .even hnpc
  | wfi => exact .even hnpc
  | fenceI => exact ⟨nofun, fun _ _ => .even hnpc⟩
  | sfenceVm =>
      exact (meetsNext_requireAll _).bind fun _ _ => ⟨nofun, fun _ _ => .even hnpc⟩

end Forms

/-- The handlers of the two widths. -/
theorem meetsNext_insnProgram (F : SoftFloat) (name : InsnName) (xlen : Xlen) (insn : Insn)
    {pc : Reg} (hpc : IsEven pc) : MeetsNext name (insnProgram F name xlen insn pc) (NextPc name) :=
  meetsNext_family (handler_family F name _) hpc
    (isEven_sextXlen (hpc.add (isEven_insnLength _)) xlen)

/-! ## What is left when a handler throws -/

/-- The hart is as before, up to what an access or the start of a CSR instruction touches. -/
structure HartKept (m m' : Machine β) : Prop where
  hart : m'.hart = { m.hart with
    mip := m'.hart.mip
    serialized := m'.hart.serialized
    loadReservation := m'.hart.loadReservation }
  events : m'.events = m.events

instance : Std.Refl (HartKept : Machine β → Machine β → Prop) := ⟨fun _ => ⟨rfl, rfl⟩⟩

instance : IsTrans (Machine β) HartKept where
  trans _ _ _ hab hbc := by
    refine ⟨?_, hbc.events.trans hab.events⟩
    rw [hbc.hart, hab.hart]

theorem storeKeeps_hartKept (P : Platform β) : StoreKeeps P HartKept where
  read := {
    walk := fun _ _ _ _ _ _ => ⟨rfl, rfl⟩
    refill := fun _ _ _ _ _ => ⟨rfl, rfl⟩
    matched := fun _ _ => ⟨rfl, rfl⟩
    device := fun _ _ _ => ⟨rfl, rfl⟩
    tracers := fun _ _ => ⟨rfl, rfl⟩ }
  write _ _ := ⟨rfl, rfl⟩
  device _ _ _ _ := ⟨rfl, rfl⟩

section Throws

variable {P : Platform β}

theorem quiet_hartKept {a : Act} {m m' : Machine β} {r : a.Result} (hquiet : a.quiet = true)
    (h : a.exec P m = .ok r m') : HartKept m m' := by
  cases a with
  | hart | setSerialized _ | setLoadReservation _ =>
      cases h
      exact ⟨rfl, rfl⟩
  | load ty addr => exact ((storeKeeps_hartKept P).read.load ty addr).ok h
  | getCsr which => exact (ReadKeeps.getCsr which).ok h
  | flushTlb | flushIcache =>
      cases h
      exact ⟨rfl, rfl⟩
  | _ => cases hquiet

theorem act_throws_hartKept {a : Act} {m m' : Machine β} {e : Exn}
    (h : a.exec P m = .error e m') : HartKept m m' := by
  cases a with
  | load ty addr => exact ((storeKeeps_hartKept P).read.load ty addr).error h
  | getCsr which => exact (ReadKeeps.getCsr which).error h
  | store ty addr value => exact ((storeKeeps_hartKept P).store ty addr value).error h
  | amo ty addr f => exact ((storeKeeps_hartKept P).amo ty addr f).error h
  | setCsr which value =>
      change setCsr which value m = _ at h
      rcases setCsr_cases which value m with ⟨_, habort⟩ | ⟨m'', hok, _⟩
      · rw [habort] at h
        cases h
        exact ⟨rfl, rfl⟩
      · rw [hok] at h
        cases h
  | _ => cases h

/-- **A handler that throws** leaves the hart as it was. -/
theorem insnProgram_throws_hartKept {F : SoftFloat} {name : InsnName} {xlen : Xlen} {insn : Insn}
    {pc : Reg} {m m' : Machine β} {e : Exn}
    (h : (insnProgram F name xlen insn pc).run (Act.exec P) m = .error e m') : HartKept m m' := by
  refine Program.run_atomic (E := fun _ => True) ?_ ?_ ?_
    (checksFirst_family (handler_family F name _)) trivial h
  · intro a m r m' hquiet hok
    exact quiet_hartKept hquiet hok
  · intro a m e m' _ herror
    exact act_throws_hartKept herror
  · intro a m htotal
    exact total_returns htotal m

theorem executeInsn_throws_hartKept {F : SoftFloat} {pc : Reg} {fetch : Decode.InsnFunc × Insn}
    {m m' : Machine β} {e : Exn} (h : executeInsn P F pc fetch m = .error e m') :
    HartKept m m' := by
  rcases bind_error h with hcall | ⟨npc, mid, -, hrecord⟩
  · obtain ⟨func, insn⟩ := fetch
    cases func with
    | rv32 name => exact insnProgram_throws_hartKept hcall
    | rv64 name => exact insnProgram_throws_hartKept hcall
    | custom n | illegalInstruction =>
        all_goals
          cases hcall
          exact ⟨rfl, rfl⟩
  · -- Nothing throws once the handler has returned.
    change (if _ then _ else _ : M β Reg) mid = _ at hrecord
    split at hrecord
    · cases hrecord
    · cases hrecord

end Throws

end SpikeSim.Riscv
