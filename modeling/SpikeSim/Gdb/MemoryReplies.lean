/-
# Replies of the memory and breakpoint operations

A read or a write of memory takes as many steps as its length has accesses, and the last of
them replies.  The number of bytes of an access divides the length, so the last access ends
where the length does.
-/

import SpikeSim.Gdb.Replies

namespace SpikeSim.Gdb

open Riscv (DebugModule)

variable {base : List Byte} {s : GdbServer} {n : Nat}

/-! ## Access sizes -/

theorem dvd_toNat_of_setWidth_eq_zero {w k : Nat} {x : BitVec w} (h : x.setWidth k = 0#k) :
    2 ^ k ∣ x.toNat := by
  have hnat : x.toNat % 2 ^ k = 0 := by simpa using congrArg BitVec.toNat h
  exact Nat.dvd_of_mod_eq_zero hnat

/-- The low bits of the address and of the length are zero if those of both together are. -/
theorem getLsbD_of_composite {mask address : Reg} {length : Word} {i k : Nat} (hi : i < k)
    (hmask : ∀ i < k, mask.getLsbD i = true)
    (h : (address ||| length.signExtend 64) &&& mask = 0) :
    address.getLsbD i = false ∧ (length.signExtend 64).getLsbD i = false := by
  have hbit : ((address ||| length.signExtend 64) &&& mask).getLsbD i = false := by
    rw [h]
    exact BitVec.getLsbD_zero
  simpa only [BitVec.getLsbD_and, BitVec.getLsbD_or, hmask i hi, Bool.and_true,
    Bool.or_eq_false_iff] using hbit

/-- The size of an access divides the length. -/
theorem findAccessSize_dvd (xlen : Nat) (address : Reg) (length : Word) :
    findAccessSize xlen address length ∣ length.toNat := by
  have hdvd {k : Nat} {mask : Reg} (hk : k ≤ 32) (hmask : ∀ i < k, mask.getLsbD i = true)
      (h : (address ||| length.signExtend 64) &&& mask = 0) : 2 ^ k ∣ length.toNat := by
    apply dvd_toNat_of_setWidth_eq_zero
    apply BitVec.eq_of_getLsbD_eq
    intro i hi
    have hbit := (getLsbD_of_composite hi hmask h).2
    have hlow : i < 32 := hi.trans_le hk
    have h64 : i < 64 := hlow.trans (by decide)
    rw [BitVec.getLsbD_signExtend, if_pos hlow] at hbit
    simpa [hi, hlow, h64] using hbit
  simp only [findAccessSize]
  split_ifs with h8 h4
  · exact hdvd (show 3 ≤ 32 by decide) (by decide) h8.1
  · exact hdvd (show 2 ≤ 32 by decide) (by decide) h4
  · exact one_dvd _

/-- It divides the address. -/
theorem findAccessSize_dvd_address (xlen : Nat) (address : Reg) (length : Word) :
    findAccessSize xlen address length ∣ address.toNat := by
  have hdvd {k : Nat} {mask : Reg} (hmask : ∀ i < k, mask.getLsbD i = true)
      (h : (address ||| length.signExtend 64) &&& mask = 0) : 2 ^ k ∣ address.toNat := by
    apply dvd_toNat_of_setWidth_eq_zero
    apply BitVec.eq_of_getLsbD_eq
    intro i hi
    simpa [hi] using (getLsbD_of_composite hi hmask h).1
  simp only [findAccessSize]
  split_ifs with h8 h4
  · exact hdvd (k := 3) (by decide) h8.1
  · exact hdvd (k := 2) (by decide) h4
  · exact one_dvd _

theorem findAccessSize_cases (xlen : Nat) (address : Reg) (length : Word) :
    findAccessSize xlen address length = 1 ∨ findAccessSize xlen address length = 4 ∨
      findAccessSize xlen address length = 8 := by
  simp only [findAccessSize]
  split_ifs
  · exact .inr (.inr rfl)
  · exact .inr (.inl rfl)
  · exact .inl rfl

theorem findAccessSize_pos (xlen : Nat) (address : Reg) (length : Word) :
    0 < findAccessSize xlen address length := by
  rcases findAccessSize_cases xlen address length with h | h | h
  · rw [h]; decide
  · rw [h]; decide
  · rw [h]; decide

/-! ## Reads -/

/-- A read of `total` bytes for a reply, under way. -/
structure Reading (total : Nat) (op : MemoryRead) : Prop where
  data : op.data = none
  size : op.size = total
  count : op.buf.length + op.length.toNat = total
  access : op.accessSize ∣ op.length.toNat
  accessPos : 0 < op.accessSize
  more : op.length ≠ 0

theorem putBytes_eq {bs : List Byte} {op : MemoryRead} (hdata : op.data = none)
    (h : op.buf.length + bs.length ≤ op.size) (s : GdbServer) :
    putBytes bs op s = .ok { op with buf := op.buf ++ bs } s := by
  induction bs generalizing op with
  | nil => simp [putBytes]
  | cons b bs ih =>
      rw [List.length_cons] at h
      have hput : putByte b op s = .ok { op with buf := op.buf ++ [b] } s := by
        simp only [putByte, hdata]
        rw [if_pos (by omega)]
        rfl
      have hlen : (op.buf ++ [b]).length + bs.length ≤ op.size := by
        simp only [List.length_append, List.length_singleton]
        omega
      have hrest : putBytes bs { op with buf := op.buf ++ [b] } s = _ := ih hdata hlen
      rw [putBytes, bind_eq_of_ok hput, hrest]
      simp

/-- The read after an access that gave `bs`. -/
def MemoryRead.next (op : MemoryRead) (bs : List Byte) : MemoryRead :=
  { op with
    buf := op.buf ++ bs
    length := op.length - BitVec.ofNat 32 op.accessSize
    paddr := op.paddr + BitVec.ofNat 64 op.accessSize }

theorem Reading.access_le {total : Nat} {op : MemoryRead} (h : Reading total op) :
    op.accessSize ≤ op.length.toNat := by
  apply Nat.le_of_dvd _ h.access
  have hmore := h.more
  rw [Ne, ← BitVec.toNat_inj] at hmore
  exact Nat.pos_of_ne_zero hmore

theorem Reading.length_next {total : Nat} {op : MemoryRead} (h : Reading total op)
    (bs : List Byte) : (op.next bs).length.toNat = op.length.toNat - op.accessSize := by
  have hle := h.access_le
  have hlt := op.length.isLt
  simp only [MemoryRead.next, BitVec.toNat_sub, BitVec.toNat_ofNat]
  rw [Nat.mod_eq_of_lt (a := op.accessSize) (by omega)]
  omega

theorem Reading.next {total : Nat} {op : MemoryRead} {bs : List Byte} (h : Reading total op)
    (hbs : bs.length = op.accessSize) (hmore : (op.next bs).length ≠ 0) :
    Reading total (op.next bs) where
  data := h.data
  size := h.size
  count := by
    have hlen : (op.next bs).buf.length = op.buf.length + bs.length := List.length_append
    have hle := h.access_le
    have hcount := h.count
    rw [h.length_next, hlen]
    omega
  access := by
    rw [h.length_next]
    exact Nat.dvd_sub h.access (dvd_refl _)
  accessPos := h.accessPos
  more := hmore

/-- The reply to a read. -/
theorem emits_replyBytes (buf : List Byte) (h : Roomy s (2 * buf.length + 4)) :
    Does (do startPacket; buf.forM (fun b => send (hexByte b)); endPacket) s
      fun _ s' => Emits s (frame (buf.flatMap hexByte)) s' := by
  have hroom : Roomy s ((buf.flatMap hexByte).length + 4) := by
    rw [length_flatMap_hexByte]
    exact h
  apply does_packet _ _ hroom
  intro s' he
  have hroom₁ : Roomy s ([ascii '$'].length + 2 * buf.length) := by
    apply h.mono
    rw [List.length_singleton]
    omega
  exact sends_forM_hexByte (Roomy.emits hroom₁ he)

theorem does_replyBytes (buf : List Byte) (h : Roomy s (2 * buf.length + 4)) :
    Does (do startPacket; buf.forM (fun b => send (hexByte b)); endPacket) s
      fun _ s' => Replies s s' :=
  (emits_replyBytes buf h).imp fun _ _ he => ⟨_, plain_flatMap_hexByte buf, he⟩

/-- One access of a read, or the reply. -/
theorem does_reading {total step : Nat} {op : MemoryRead} (hop : Reading total op)
    (hstep : step ≠ 0) (hs : Wide s) (hroom : Roomy s (max 7 (2 * total + 4))) :
    Does (stepMemoryRead op step) s (StepReplies s fun op' =>
      ∃ op₁, op' = .memoryRead op₁ ∧ Reading total op₁ ∧ op₁.length.toNat < op.length.toNat) := by
  rw [stepMemoryRead, if_neg hstep]
  apply does_exceptionHit hs (by decide) (le_max_left _ _) hroom
  intro s₁ hs₁ hroom₁
  apply (Quiet.drRead .data1).thenReplies hs₁ hroom₁
  intro value s₂ hs₂ hroom₂
  have hbs := length_lowBytes op.accessSize value
  have hle := hop.access_le
  have hcount := hop.count
  have hput : putBytes (lowBytes op.accessSize value) op s₂ = _ :=
    putBytes_eq hop.data (by rw [hbs, hop.size]; omega) s₂
  apply Does.bind_ok hput
  change Does (if (op.next (lowBytes op.accessSize value)).length = 0 then _ else _) s₂ _
  split
  · next hzero =>
      have hlen : (op.next (lowBytes op.accessSize value)).buf.length ≤ total := by
        change (op.buf ++ _).length ≤ _
        rw [List.length_append, hbs]
        omega
      simp only [hop.data, Option.isNone_none, if_true]
      have hfits : 2 * (op.next (lowBytes op.accessSize value)).buf.length + 4 ≤ 2 * total + 4 := by
        omega
      have hreply := does_replyBytes (op.next (lowBytes op.accessSize value)).buf
        (hroom₂.mono (hfits.trans (le_max_right _ _)))
      have hstep : Does _ s₂ (StepReplies s₂ fun op' => ∃ op₁, op' = .memoryRead op₁ ∧
        Reading total op₁ ∧ op₁.length.toNat < op.length.toNat) := does_reply hreply
      simp only [bind_assoc] at hstep
      exact hstep
  · next hmore =>
      have hnext := hop.next hbs hmore
      have hless : (op.next (lowBytes op.accessSize value)).length.toNat < op.length.toNat := by
        have hpos := hop.accessPos
        rw [hop.length_next]
        omega
      have hprogram : Silent (do
          drWrite .data0 (op.next (lowBytes op.accessSize value)).paddr
          setInterrupt
          return some (Operation.memoryRead (op.next (lowBytes op.accessSize value))))
          (· = some (.memoryRead (op.next (lowBytes op.accessSize value)))) :=
        (Quiet.drWrite _ _).followed fun _ => Quiet.setInterrupt.followed fun _ => Silent.pure rfl
      exact does_silent hprogram hs₂ ⟨_, rfl, hnext, hless⟩

/-- The rest of a read, from the first access that was made. -/
theorem completes_reading {total step : Nat} {op : MemoryRead} (hw : Waiting base s)
    (hempty : s.sendBuf.size = 0) (hop : Reading total op) (htotal : total ≤ 32765)
    (hstep : step ≠ 0) (hq : s.operationQueue = [(.memoryRead op, step)])
    (hn : op.length.toNat ≤ n) : CompletesIn (Answered base) (n + 1) s := by
  induction n generalizing s step op with
  | zero =>
      have hle := hop.access_le
      have hpos := hop.accessPos
      omega
  | succ n ih =>
      have hroom (d : DebugModule) : Roomy (s.withDebugModule d) (max 7 (2 * total + 4)) := by
        refine ⟨hw.capacity, ?_⟩
        change s.sendBuf.size + _ + 1 < 65536
        omega
      apply completes_stepReplies hw hq fun _ op' =>
        ∃ op₁, op' = .memoryRead op₁ ∧ Reading total op₁ ∧ op₁.length.toNat < op.length.toNat
      · exact fun d _ => does_reading hop hstep (hw.wide.withDebugModule d) (hroom d)
      · rintro d _ s' ⟨op₁, rfl, hop₁, hless⟩ ha hq'
        exact ih (hw.after ha) ha.size hop₁ step.succ_ne_zero hq' (by omega)

/-- Only the tables matter. -/
theorem Translates.congr {s' : GdbServer} {vaddr : Reg} (h : Translates s vaddr)
    (hvm : s'.virtualMemory = s.virtualMemory) (hsptbr : s'.sptbr = s.sptbr)
    (hcache : s'.pteCache = s.pteCache) : Translates s' vaddr := by
  cases htables : tableShape s.virtualMemory with
  | none =>
      have hrun : translate vaddr s = .error .abort s := by
        simp only [translate, currentTables, run_bind, run_get, htables]
        rfl
      obtain ⟨a, s₁, hok, -⟩ := h.ok
      rw [hrun] at hok
      cases hok
  | some tables =>
      cases tables with
      | none => exact translates_of_bare (hvm ▸ htables)
      | some shape =>
          apply translates_of_walk (hvm ▸ htables)
          intro a hmiss
          rw [hsptbr, hcache] at hmiss
          have hrun : translate vaddr s = .error .abort s := by
            simp only [translate, run_bind, run_currentTables htables, run_get, hmiss]
            rfl
          obtain ⟨_, s₁, hok, -⟩ := h.ok
          rw [hrun] at hok
          cases hok

theorem Translates.withDebugModule {vaddr : Reg} (h : Translates s vaddr) (d : DebugModule) :
    Translates (s.withDebugModule d) vaddr := h.congr rfl rfl rfl

theorem Translates.after {s' : GdbServer} {vaddr : Reg} (h : Translates s vaddr)
    (ha : After s [] s') : Translates s' vaddr :=
  h.congr (virtualMemory_congr ha.mstatus ha.dcsr) ha.sptbr ha.pteCache

theorem does_newMemoryRead {vaddr : Reg} {length : Word} (h : Translates s vaddr) (hs : Wide s)
    (hlength : length ≠ 0) :
    Does (performStep 0 (newMemoryRead vaddr length none)) s (StepReplies s fun op' =>
      ∃ op, op' = .memoryRead op ∧ Reading length.toNat op ∧ op.length = length) := by
  change Does (stepMemoryRead _ 0) s _
  rw [stepMemoryRead, if_pos rfl]
  apply Does.bind h
  intro paddr s₁ hs₁
  rw [hs₁]
  apply Does.get_bind
  have hpos := findAccessSize_pos s.xlen paddr length
  let op : MemoryRead :=
    ⟨vaddr, length, none, paddr, findAccessSize s.xlen paddr length, [], length.toNat⟩
  have hop : Reading length.toNat op :=
    ⟨rfl, rfl, Nat.zero_add _, findAccessSize_dvd _ _ _, hpos, hlength⟩
  have hprogram : Silent (do
      drWriteLoad 0 s0 .data0
      drWrite32 1 (loadBySize op.accessSize)
      drWriteStore 2 s1 .data1
      drWriteJump 3
      drWrite .data0 paddr
      setInterrupt
      return some (Operation.memoryRead op)) (· = some (.memoryRead op)) :=
    (Quiet.drWriteLoad _ _ _).followed fun _ => (Quiet.drWrite32 _ _).followed fun _ =>
      (Quiet.drWriteStore _ rfl).followed fun _ => (Quiet.drWriteJump _).followed fun _ =>
      (Quiet.drWrite _ _).followed fun _ => Quiet.setInterrupt.followed fun _ => Silent.pure rfl
  exact does_silent hprogram hs ⟨op, rfl, hop, rfl⟩

/-- A read replies, once the address can be translated. -/
theorem completes_memoryRead {vaddr : Reg} {length : Word} (hw : Waiting base s)
    (h : Translates s vaddr) (hlength : length ≠ 0) (hmax : length.toNat ≤ 32765)
    (hq : s.operationQueue = [(newMemoryRead vaddr length none, 0)]) :
    CompletesIn (Answered base) (length.toNat + 2) s := by
  apply completes_stepReplies hw hq fun _ op' =>
    ∃ op, op' = .memoryRead op ∧ Reading length.toNat op ∧ op.length = length
  · exact fun d _ => does_newMemoryRead (h.withDebugModule d) (hw.wide.withDebugModule d) hlength
  · rintro d _ s' ⟨op, rfl, hop, rfl⟩ ha hq'
    exact completes_reading (hw.after ha) ha.size hop hmax Nat.one_ne_zero hq' le_rfl

/-! ## Writes -/

/-- A write under way. -/
structure Writing (op : MemoryWrite) : Prop where
  access : op.accessSize ∣ op.length.toNat
  accessSize : op.accessSize = 1 ∨ op.accessSize = 4 ∨ op.accessSize = 8
  offset : op.accessSize ∣ op.offset.toNat
  data : op.length.toNat ≤ op.data.length

theorem silent_byteAt {data : List Byte} {i : Nat} (h : i < data.length) :
    Quiet (byteAt data i) := by
  rw [byteAt, List.getElem?_eq_getElem h]
  exact Quiet.pure _

theorem quiet_wordAt {data : List Byte} {i : Nat} (h : i + 4 ≤ data.length) :
    Quiet (wordAt data i) :=
  (silent_byteAt (by omega)).bind fun _ => (silent_byteAt (by omega)).bind fun _ =>
    (silent_byteAt (by omega)).bind fun _ => (silent_byteAt (by omega)).bind fun _ => Quiet.pure _

theorem quiet_writeData {dataOffset size : Nat} {data : List Byte} {i : Nat}
    (hsize : size = 1 ∨ size = 4 ∨ size = 8) (h : i + size ≤ data.length) :
    Quiet (writeData dataOffset size data i) := by
  rcases hsize with rfl | rfl | rfl
  · exact (silent_byteAt (by omega)).bind fun _ => Quiet.drWrite32 _ _
  · exact (quiet_wordAt h).bind fun _ => Quiet.drWrite32 _ _
  · exact (quiet_wordAt (by omega)).bind fun _ => (Quiet.drWrite32 _ _).bind fun _ =>
      (quiet_wordAt h).bind fun _ => Quiet.drWrite32 _ _

theorem quiet_writeDataOffset : Quiet writeDataOffset := Quiet.byXlen (Quiet.pure _) (Quiet.pure _)

/-- The write after an access. -/
def MemoryWrite.next (op : MemoryWrite) : MemoryWrite :=
  { op with offset := op.offset + BitVec.ofNat 32 op.accessSize }

theorem Writing.next {op : MemoryWrite} (h : Writing op)
    (hlt : op.offset.toNat + op.accessSize < 2 ^ 32) :
    op.next.offset.toNat = op.offset.toNat + op.accessSize ∧ Writing op.next := by
  have hoffset : op.next.offset.toNat = op.offset.toNat + op.accessSize := by
    simp only [MemoryWrite.next, BitVec.toNat_add, BitVec.toNat_ofNat]
    rw [Nat.mod_eq_of_lt (a := op.accessSize) (by omega), Nat.mod_eq_of_lt hlt]
  refine ⟨hoffset, h.access, h.accessSize, ?_, h.data⟩
  rw [hoffset]
  exact (Nat.dvd_add_right h.offset).mpr (dvd_refl _)

/-- The accesses end where the length does. -/
theorem Writing.fits {op : MemoryWrite} (h : Writing op) (hlt : op.offset < op.length) :
    op.offset.toNat + op.accessSize ≤ op.length.toNat := by
  have hlt' : op.offset.toNat < op.length.toNat := hlt
  have hdvd := Nat.dvd_sub h.access h.offset
  have hle := Nat.le_of_dvd (by omega) hdvd
  omega

/-- The part of a step that the first and the later ones share. -/
theorem does_translated {vaddr : Reg} {f : Reg → Nat → GdbM (Option Operation)}
    {Next : Operation → Prop} (h : Translates s vaddr) (hs : Wide s) (hroom : Roomy s 7)
    (hf : ∀ paddr dataOffset s', Wide s' → Roomy s' 7 →
      Does (f paddr dataOffset) s' (StepReplies s' Next)) :
    Does (do f (← translate vaddr) (← writeDataOffset)) s (StepReplies s Next) := by
  apply Does.bind h
  intro paddr s₁ hs₁
  rw [hs₁]
  exact quiet_writeDataOffset.thenReplies hs hroom (hf paddr)

/-- What is left of a write. -/
def MemoryWrite.remaining (op : MemoryWrite) : Nat := op.length.toNat - op.offset.toNat

/-- The next access of a write is due. -/
def WritesOn (op op₁ : MemoryWrite) : Prop :=
  op₁.vaddr = op.vaddr ∧ Writing op₁ ∧ op₁.offset < op₁.length ∧ op₁.remaining < op.remaining

/-- Another access is made only if there is room for it. -/
theorem Writing.writesOn {op : MemoryWrite} (h : Writing op)
    (hlt : op.offset < op.length ∨ op.length = 0) (hless : op.next.offset < op.next.length) :
    WritesOn op op.next := by
  rcases hlt with hlt | hzero
  · have hfits := h.fits hlt
    have hbound := op.length.isLt
    have hsize := h.accessSize
    have hlt' : op.offset.toNat < op.length.toNat := hlt
    have hless' : op.next.offset.toNat < op.length.toNat := hless
    have hmod : (op.offset.toNat + op.accessSize) % 2 ^ 32 = op.offset.toNat + op.accessSize :=
      Nat.mod_eq_of_lt (by omega)
    obtain ⟨hoffset, hnext⟩ := h.next (by omega)
    refine ⟨rfl, hnext, hless, ?_⟩
    change op.length.toNat - op.next.offset.toNat < op.length.toNat - op.offset.toNat
    omega
  · have hzero' : op.next.length = 0 := hzero
    rw [hzero'] at hless
    exact absurd hless BitVec.not_lt_zero

/-- One access of a write, or the reply. -/
theorem does_writing {step : Nat} {op : MemoryWrite} (hop : Writing op)
    (hlt : op.offset < op.length ∨ op.length = 0) (hstep : step ≠ 0)
    (h : Translates s op.vaddr) (hs : Wide s) (hroom : Roomy s 7) :
    Does (stepMemoryWrite op step) s (StepReplies s fun op' =>
      ∃ op₁, op' = .memoryWrite op₁ ∧ WritesOn op op₁) := by
  have hstepped : stepMemoryWrite op step = do
      let paddr ← translate op.vaddr
      let dataOffset ← writeDataOffset
      if ← exceptionHit then
        sendPacket "E98"
        return none
      if op.next.length ≤ op.next.offset then
        sendPacket "OK"
        return none
      else
        writeData dataOffset op.next.accessSize op.next.data op.next.offset.toNat
        drWrite .data0 (paddr + op.next.offset.setWidth 64)
        setInterrupt
        return some (.memoryWrite op.next) := by
    simp only [stepMemoryWrite, if_neg hstep]
    rfl
  rw [hstepped]
  apply does_translated h hs hroom
  intro paddr dataOffset s₁ hs₁ hroom₁
  apply does_exceptionHit hs₁ (by decide) (by decide) hroom₁
  intro s₂ hs₂ hroom₂
  by_cases hdone : op.next.length ≤ op.next.offset
  · rw [if_pos hdone]
    exact does_reply (replies_sendPacket (by decide) (hroom₂.mono (by decide)))
  · rw [if_neg hdone]
    have hless : op.next.offset < op.next.length := BitVec.not_le.mp hdone
    have hon := hop.writesOn hlt hless
    have hfits := (hon.2.1.fits hless).trans hon.2.1.data
    have hprogram : Silent (do
        writeData dataOffset op.next.accessSize op.next.data op.next.offset.toNat
        drWrite .data0 (paddr + op.next.offset.setWidth 64)
        setInterrupt
        return some (Operation.memoryWrite op.next)) (· = some (.memoryWrite op.next)) :=
      (quiet_writeData hop.accessSize hfits).followed fun _ =>
        (Quiet.drWrite _ _).followed fun _ => Quiet.setInterrupt.followed fun _ => Silent.pure rfl
    exact does_silent hprogram hs₂ ⟨_, rfl, hon⟩

/-- The rest of a write, from the first access that was made. -/
theorem completes_writing {step : Nat} {op : MemoryWrite} (hw : Waiting base s)
    (hop : Writing op) (hlt : op.offset < op.length ∨ op.length = 0) (hstep : step ≠ 0)
    (h : Translates s op.vaddr) (hq : s.operationQueue = [(.memoryWrite op, step)])
    (hn : op.remaining < n) : CompletesIn (Answered base) n s := by
  induction n generalizing s step op with
  | zero => exact absurd hn (Nat.not_lt_zero _)
  | succ n ih =>
      apply completes_stepReplies hw hq fun _ op' =>
        ∃ op₁, op' = .memoryWrite op₁ ∧ WritesOn op op₁
      · exact fun d _ => does_writing hop hlt hstep (h.withDebugModule d)
          (hw.wide.withDebugModule d) ((hw.roomy d).mono (by decide))
      · rintro d _ s' ⟨op₁, rfl, hvaddr, hop₁, hlt₁, hless⟩ ha hq'
        apply ih (hw.after ha) hop₁ (.inl hlt₁) step.succ_ne_zero _ hq' (by omega)
        rw [hvaddr]
        exact h.after ha

theorem does_newMemoryWrite {vaddr : Reg} {length : Word} {data : List Byte}
    (h : Translates s vaddr) (hs : Wide s) (hroom : Roomy s 7) (hdata : data ≠ [])
    (hlength : length.toNat = data.length % 2 ^ 32) :
    Does (performStep 0 (newMemoryWrite vaddr length data)) s (StepReplies s fun op' =>
      ∃ op, op' = .memoryWrite op ∧ op.vaddr = vaddr ∧ op.offset = 0 ∧ op.length = length ∧
        Writing op) := by
  change Does (stepMemoryWrite _ 0) s _
  simp only [stepMemoryWrite, if_true]
  apply does_translated h hs hroom
  intro paddr dataOffset s₁ hs₁ hroom₁
  apply Does.get_bind
  let op : MemoryWrite := ⟨vaddr, 0, length, findAccessSize s₁.xlen paddr length, data⟩
  have hop : Writing op := by
    refine ⟨findAccessSize_dvd _ _ _, findAccessSize_cases _ _ _, dvd_zero _, ?_⟩
    rw [hlength]
    exact Nat.mod_le _ _
  have hpower : op.accessSize ∣ 2 ^ 32 := by
    rcases hop.accessSize with h | h | h
    · rw [h]; decide
    · rw [h]; decide
    · rw [h]; decide
  have hfits : 0 + op.accessSize ≤ data.length := by
    rw [Nat.zero_add]
    apply Nat.le_of_dvd (List.length_pos_of_ne_nil hdata)
    rw [← Nat.dvd_mod_iff hpower, ← hlength]
    exact hop.access
  have hprogram : Silent (do
      drWriteLoad 0 s0 .data0
      drWrite32 1 (storeBySize op.accessSize (ramAddr dataOffset)).1
      drWrite32 2 (storeBySize op.accessSize (ramAddr dataOffset)).2
      writeData dataOffset op.accessSize data 0
      drWriteJump 3
      drWrite .data0 paddr
      setInterrupt
      return some (Operation.memoryWrite op)) (· = some (.memoryWrite op)) :=
    (Quiet.drWriteLoad _ _ _).followed fun _ => (Quiet.drWrite32 _ _).followed fun _ =>
      (Quiet.drWrite32 _ _).followed fun _ =>
      (quiet_writeData hop.accessSize hfits).followed fun _ =>
      (Quiet.drWriteJump _).followed fun _ => (Quiet.drWrite _ _).followed fun _ =>
      Quiet.setInterrupt.followed fun _ => Silent.pure rfl
  exact does_silent hprogram hs₁ ⟨op, rfl, rfl, rfl, rfl, hop⟩

/-- A write replies, once the address can be translated. -/
theorem completes_memoryWrite {vaddr : Reg} {length : Word} {data : List Byte}
    (hw : Waiting base s) (h : Translates s vaddr) (hdata : data ≠ [])
    (hlength : length.toNat = data.length % 2 ^ 32)
    (hq : s.operationQueue = [(newMemoryWrite vaddr length data, 0)]) :
    CompletesIn (Answered base) (length.toNat + 2) s := by
  apply completes_stepReplies hw hq fun _ op' =>
    ∃ op, op' = .memoryWrite op ∧ op.vaddr = vaddr ∧ op.offset = 0 ∧ op.length = length ∧ Writing op
  · exact fun d _ => does_newMemoryWrite (h.withDebugModule d) (hw.wide.withDebugModule d)
      ((hw.roomy d).mono (by decide)) hdata hlength
  · rintro d _ s' ⟨op, rfl, rfl, hoffset, rfl, hop⟩ ha hq'
    apply completes_writing (hw.after ha) hop _ Nat.one_ne_zero (h.after ha) hq'
    · rw [MemoryWrite.remaining, hoffset]
      exact Nat.lt_succ_self _
    · rw [hoffset]
      by_cases hzero : op.length = 0
      · exact .inr hzero
      · rw [← BitVec.toNat_inj] at hzero
        exact .inl (Nat.pos_of_ne_zero hzero)

/-! ## Hardware breakpoints -/

theorem silent_maybeSaveTselect (step : Nat) :
    Silent (stepMaybeSaveTselect step) fun r =>
      r = none ∨ step = 0 ∧ r = some .maybeSaveTselect := by
  apply Quiet.get.followed
  intro s
  split
  · exact Silent.pure (.inl rfl)
  split
  · exact (Quiet.drWrite32 _ _).followed fun _ => (Quiet.drWriteStore _ rfl).followed fun _ =>
      (Quiet.drWriteJump _).followed fun _ => Quiet.setInterrupt.followed fun _ =>
      Silent.pure (.inr ⟨rfl, rfl⟩)
  · apply (Quiet.drRead _).followed
    intro _
    apply Quiet.followed
    · exact Quiet.modify (fun _ =>
        ⟨(List.append_nil _).symm, rfl, rfl, rfl, rfl, rfl, rfl, rfl, rfl, rfl⟩) fun _ => rfl
    · exact fun _ => Silent.pure (.inl rfl)
  · exact Silent.pure (.inl rfl)

variable {P : GdbServer → Prop} {rest : List (Operation × Nat)}

/-- A step that sends nothing. -/
theorem completes_silent {op : Operation} {step : Nat} {Q : Option Operation → Prop}
    (hs : Wide s) (hcap : s.sendBuf.capacity = 65536)
    (hq : s.operationQueue = (op, step) :: rest) (hstep : Silent (performStep step op) Q)
    (hnext : ∀ r s', Q r → After s [] s' → s'.operationQueue =
      (match r with | none => rest | some op' => (op', step + 1) :: rest) → CompletesIn P n s') :
    CompletesIn P (n + 1) s := by
  apply CompletesIn.front hq
  intro d _
  apply (hstep.at (hs.withDebugModule d)).imp
  rintro r s' ⟨he, hr⟩
  have htail : s'.operationQueue.tail = rest := by
    rw [he.operationQueue]
    exact congrArg List.tail hq
  apply hnext r _ hr (he.advance hcap r step)
  cases r with
  | none => exact htail
  | some op' => exact congrArg _ htail

theorem After.trans {s' s'' : GdbServer} {out : List Byte} (h : After s [] s')
    (h' : After s' out s'') : After s out s'' where
  sent := by rw [h'.sent, h.sent, List.append_nil]
  size := h'.size
  capacity := h'.capacity.trans h.capacity
  xlen := h'.xlen.trans h.xlen
  mstatus := h'.mstatus.trans h.mstatus
  dcsr := h'.dcsr.trans h.dcsr
  sptbr := h'.sptbr.trans h.sptbr
  sptbrValid := h'.sptbrValid.trans h.sptbrValid
  pteCache := h'.pteCache.trans h.pteCache

/-- The trigger that is selected is saved, if it was not before. -/
theorem completes_maybeSaveTselect (hs : Wide s) (hcap : s.sendBuf.capacity = 65536)
    (hq : s.operationQueue = (.maybeSaveTselect, 0) :: rest)
    (hdone : ∀ s', After s [] s' → s'.operationQueue = rest → CompletesIn P n s') :
    CompletesIn P (n + 2) s := by
  apply completes_silent hs hcap hq (silent_maybeSaveTselect 0)
  rintro _ s₁ (rfl | ⟨-, rfl⟩) ha₁ hq₁
  · exact (hdone s₁ ha₁ hq₁).mono (Nat.le_succ n)
  have hs₁ : Wide s₁ := by rw [Wide, ha₁.xlen]; exact hs
  apply completes_silent hs₁ (ha₁.capacity.trans hcap) hq₁ (silent_maybeSaveTselect 1)
  rintro _ s₂ (rfl | ⟨h, -⟩) ha₂ hq₂
  · exact hdone s₂ (ha₁.trans ha₂) hq₂
  · exact absurd h Nat.one_ne_zero

theorem silent_hardwareBreakpointRemove (bp : HardwareBreakpoint) :
    Silent (stepHardwareBreakpointRemove bp) (· = none) :=
  (Quiet.drWrite32 _ _).followed fun _ => (Quiet.drWrite32 _ _).followed fun _ =>
    (Quiet.drWrite32 _ _).followed fun _ => (Quiet.drWriteJump _).followed fun _ =>
    Quiet.setInterrupt.followed fun _ => Silent.pure rfl

theorem Answered.after {s' : GdbServer} (h : Answered base s) (ha : After s [] s') :
    Answered base s' := by
  obtain ⟨payload, hplain, hsent⟩ := h.sent
  exact ⟨⟨payload, hplain, by rw [ha.sent, hsent, List.append_nil]⟩,
    by rw [Wide, ha.xlen]; exact h.wide, ha.capacity.trans h.capacity⟩

/-- The reply was sent before the trigger is disabled. -/
theorem completes_hardwareBreakpointRemove {bp : HardwareBreakpoint} (h : Answered base s)
    (hq : s.operationQueue = [(.maybeSaveTselect, 0), (.hardwareBreakpointRemove bp, 0)]) :
    CompletesIn (Answered base) 3 s := by
  apply completes_maybeSaveTselect h.wide h.capacity hq
  intro s₁ ha₁ hq₁
  have h₁ := h.after ha₁
  apply completes_silent h₁.wide h₁.capacity hq₁ (silent_hardwareBreakpointRemove bp)
  rintro _ s₂ rfl ha₂ hq₂
  exact CompletesIn.done hq₂ (h₁.after ha₂)

theorem quiet_writeNewIndexProgram (index : Word) : Quiet (writeNewIndexProgram index) :=
  (Quiet.drWriteLoad _ _ _).bind fun _ => (Quiet.drWrite32 _ _).bind fun _ =>
    (Quiet.drWrite32 _ _).bind fun _ => (Quiet.drWriteStore _ rfl).bind fun _ =>
    (Quiet.drWriteJump _).bind fun _ => Quiet.drWrite _ _

/-- Ask for the trigger `bp.index`. -/
theorem silent_select (bp : HardwareBreakpoint) :
    Silent (do
      writeNewIndexProgram bp.index
      setInterrupt
      return some (Operation.hardwareBreakpointInsert .checkIndex bp))
      (· = some (.hardwareBreakpointInsert .checkIndex bp)) :=
  (quiet_writeNewIndexProgram _).followed fun _ => Quiet.setInterrupt.followed fun _ =>
    Silent.pure rfl

/-- A trigger that was selected is one of the four. -/
theorem does_checkIndex {bp : HardwareBreakpoint} (hs : Wide s) (hroom : Roomy s 7)
    (hfew : 4 ≤ bp.index → Does (drRead .data1) s fun value _ => value ≠ bp.index.setWidth 64) :
    Does (stepHardwareBreakpointInsert bp .checkIndex) s (StepReplies s fun op' =>
      op' = .hardwareBreakpointInsert .checkMcontrol bp ∧ bp.index < 4) := by
  have hprogram : Silent (do
      drWrite32 0 (csrr s0 (csrWord .tdata1))
      drWriteStore 1 s0 .data0
      drWriteJump 2
      setInterrupt
      return some (Operation.hardwareBreakpointInsert .checkMcontrol bp))
      (· = some (.hardwareBreakpointInsert .checkMcontrol bp)) :=
    (Quiet.drWrite32 _ _).followed fun _ => (Quiet.drWriteStore _ rfl).followed fun _ =>
      (Quiet.drWriteJump _).followed fun _ => Quiet.setInterrupt.followed fun _ => Silent.pure rfl
  obtain ⟨value, s₁, hread, he, -⟩ := (Quiet.drRead .data1 s hs).ok
  apply Does.bind_ok hread
  by_cases hvalue : value ≠ bp.index.setWidth 64
  · rw [if_pos hvalue]
    have hreply : Does (do sendPacket "E58"; return none) s₁ (StepReplies s₁ fun op' =>
        op' = .hardwareBreakpointInsert .checkMcontrol bp ∧ bp.index < 4) :=
      does_reply (replies_sendPacket (by decide) ((hroom.silent he).mono (by decide)))
    exact hreply.imp fun _ _ h => h.trans he
  · rw [if_neg hvalue]
    have hlt : bp.index < 4 := by
      by_contra hge
      obtain ⟨value', s₂, hread', hne⟩ := (hfew (BitVec.not_lt.mp hge)).ok
      rw [hread] at hread'
      cases hread'
      exact hvalue hne
    exact (does_silent hprogram (he.wide hs) ⟨rfl, hlt⟩).imp fun _ _ h => h.trans he

/-- The trigger after this one. -/
def HardwareBreakpoint.nextIndex (bp : HardwareBreakpoint) : HardwareBreakpoint :=
  { bp with index := bp.index + 1 }

theorem does_checkMcontrol {bp : HardwareBreakpoint} (hs : Wide s) (hroom : Roomy s 7) :
    Does (stepHardwareBreakpointInsert bp .checkMcontrol) s (StepReplies s fun op' =>
      op' = .hardwareBreakpointInsert .writeAddress bp ∨
        op' = .hardwareBreakpointInsert .checkIndex bp.nextIndex) := by
  have hwrite (xlen : Nat) : Silent (do
      drWriteLoad 0 s0 .data1
      drWrite32 1 (csrw s0 (csrWord .tdata1))
      drWriteJump 2
      drWrite .data1 (breakpointMcontrol xlen bp)
      setInterrupt
      return some (Operation.hardwareBreakpointInsert .writeAddress bp))
      (· = some (.hardwareBreakpointInsert .writeAddress bp)) :=
    (Quiet.drWriteLoad _ _ _).followed fun _ => (Quiet.drWrite32 _ _).followed fun _ =>
      (Quiet.drWriteJump _).followed fun _ => (Quiet.drWrite _ _).followed fun _ =>
      Quiet.setInterrupt.followed fun _ => Silent.pure rfl
  apply (Quiet.drRead .data0).thenReplies hs hroom
  intro mcontrol s₁ hs₁ hroom₁
  apply Does.get_bind
  dsimp only
  split
  · exact does_reply (replies_sendPacket (by decide) (hroom₁.mono (by decide)))
  split
  · exact does_silent (hwrite _) hs₁ (.inl rfl)
  · exact does_silent (silent_select bp.nextIndex) hs₁ (.inr rfl)

theorem does_writeAddress {bp : HardwareBreakpoint} (hs : Wide s) (hroom : Roomy s 7) :
    Does (stepHardwareBreakpointInsert bp .writeAddress) s (StepReplies s fun _ => False) := by
  apply (Quiet.drWriteLoad _ _ _).thenReplies hs hroom
  intro _ s₁ hs₁ hroom₁
  apply (Quiet.drWrite32 _ _).thenReplies hs₁ hroom₁
  intro _ s₂ hs₂ hroom₂
  apply (Quiet.drWriteJump _).thenReplies hs₂ hroom₂
  intro _ s₃ hs₃ hroom₃
  apply (Quiet.drWrite _ _).thenReplies hs₃ hroom₃
  intro _ s₄ hs₄ hroom₄
  apply Quiet.setInterrupt.thenReplies hs₄ hroom₄
  intro _ s₅ hs₅ hroom₅
  apply Does.bind (does_sendPacket (hroom₅.mono (by decide)))
  intro _ s₆ he
  exact Does.of_ok rfl (.inl ⟨rfl, _, by decide, ⟨he.1, he.2, he.3, he.4, he.5, he.6, he.7, he.8,
    he.9, he.10⟩⟩)

/-- The triggers are tried one after the other. -/
theorem completes_checkIndex {bp : HardwareBreakpoint} {k step : Nat} (hw : Waiting base s)
    (hk : bp.index.toNat + k = 4)
    (hq : s.operationQueue = [(.hardwareBreakpointInsert .checkIndex bp, step)]) :
    CompletesIn (Answered base) (2 * k + 1) s := by
  induction k generalizing s bp step with
  | zero =>
      apply completes_stepReplies hw hq fun _ op' =>
        op' = .hardwareBreakpointInsert .checkMcontrol bp ∧ bp.index < 4
      · exact fun d hd => does_checkIndex (hw.wide.withDebugModule d)
          ((hw.roomy d).mono (by decide)) (hd bp step [] hq)
      · rintro d _ s' ⟨-, hlt⟩ - -
        have hlt' : bp.index.toNat < 4 := hlt
        omega
  | succ k ih =>
      change CompletesIn (Answered base) (2 * k + 1 + 1 + 1) s
      apply completes_stepReplies hw hq fun _ op' =>
        op' = .hardwareBreakpointInsert .checkMcontrol bp ∧ bp.index < 4
      · exact fun d hd => does_checkIndex (hw.wide.withDebugModule d)
          ((hw.roomy d).mono (by decide)) (hd bp step [] hq)
      rintro d _ s₁ ⟨rfl, hlt⟩ ha₁ hq₁
      have hw₁ := hw.after ha₁
      have hlt' : bp.index.toNat < 4 := hlt
      apply completes_stepReplies hw₁ hq₁ fun _ op' =>
        op' = .hardwareBreakpointInsert .writeAddress bp ∨
          op' = .hardwareBreakpointInsert .checkIndex bp.nextIndex
      · exact fun d _ => does_checkMcontrol (hw₁.wide.withDebugModule d)
          ((hw₁.roomy d).mono (by decide))
      rintro d _ s₂ (rfl | rfl) ha₂ hq₂
      · have hw₂ := hw₁.after ha₂
        apply completes_stepReplies hw₂ hq₂ fun _ _ => False
        · exact fun d _ => does_writeAddress (hw₂.wide.withDebugModule d)
            ((hw₂.roomy d).mono (by decide))
        · exact fun _ _ _ h => h.elim
      · apply ih (hw₁.after ha₂) _ hq₂
        have hindex : bp.nextIndex.index.toNat = bp.index.toNat + 1 := by
          have hone : (1 : Word).toNat = 1 := rfl
          simp only [HardwareBreakpoint.nextIndex, BitVec.toNat_add, hone]
          omega
        omega

theorem completes_hardwareBreakpointInsert {bp : HardwareBreakpoint} (hw : Waiting base s)
    (hq : s.operationQueue =
      [(.maybeSaveTselect, 0), (.hardwareBreakpointInsert .start bp, 0)]) :
    CompletesIn (Answered base) 12 s := by
  apply completes_maybeSaveTselect hw.wide hw.capacity hq
  intro s₁ ha₁ hq₁
  have hw₁ := hw.after ha₁
  apply completes_silent hw₁.wide hw₁.capacity hq₁ (silent_select { bp with index := 0 })
  rintro _ s₂ rfl ha₂ hq₂
  exact completes_checkIndex (k := 4) (hw₁.after ha₂) rfl hq₂

end SpikeSim.Gdb
