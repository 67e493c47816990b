/-
# How far a read of memory goes

A read makes one access for each step after its first, and replies in the last one.  The
number of bytes of an access divides the address and the length, so the accesses are aligned
and the length comes to zero exactly; a length that is zero to begin with does not end the
read, since the test comes after the subtraction.

The reply is put into the send buffer before any of it is written out.  The buffer holds one
byte less than 64 KiB, while the packet size that the server advertises is twice that.
-/

import SpikeSim.Gdb.MemoryReplies

namespace SpikeSim.Gdb

open Riscv (DebugModule)

variable {s : GdbServer} {total step n : Nat} {op : MemoryRead} {value : Reg}

/-! ## What is in the send buffer -/

/-- What the code sends is in the send buffer, behind what was there. -/
def Buffers (s s' : GdbServer) : Prop :=
  s.sendBuf.capacity = 65536 → s'.sendBuf.capacity = 65536 ∧
    ∃ out, s'.sent = s.sent ++ out ∧ s'.sendBuf.contents = s.sendBuf.contents ++ out

instance : Std.Refl Buffers :=
  ⟨fun _ hcap => ⟨hcap, [], (List.append_nil _).symm, (List.append_nil _).symm⟩⟩

instance : IsTrans GdbServer Buffers := by
  constructor
  intro s s' s'' h h' hcap
  obtain ⟨hcap₁, out, hsent, hcontents⟩ := h hcap
  obtain ⟨hcap₂, out', hsent', hcontents'⟩ := h' hcap₁
  refine ⟨hcap₂, out ++ out', ?_, ?_⟩
  · rw [hsent', hsent, List.append_assoc]
  · rw [hcontents', hcontents, List.append_assoc]

theorem buffers_send (msg : List Byte) : Keeps Buffers (send msg) where
  ok := by
    intro s _ s' h hcap
    have hcapacity : s.sendBuf.capacity ≤ 2 ^ 31 := by rw [hcap]; decide
    simp only [send, run_bind, run_get] at h
    cases hb : s.sendBuf.append msg with
    | none =>
        rw [hb] at h
        cases h
    | some b =>
        rw [hb] at h
        cases h
        obtain ⟨hcontents, hcap'⟩ := RingBuffer.contents_append hcapacity hb
        exact ⟨hcap'.trans hcap, msg, rfl, hcontents⟩
  error := by
    intro s e s' h
    simp only [send, run_bind, run_get] at h
    cases hb : s.sendBuf.append msg with
    | none =>
        rw [hb] at h
        cases h
        exact Std.Refl.refl _
    | some b =>
        rw [hb] at h
        cases h

/-- A change of fields other than the buffer. -/
theorem buffers_modify {f : GdbServer → GdbServer} (hbuf : ∀ s, (f s).sendBuf = s.sendBuf)
    (hsent : ∀ s, (f s).sent = s.sent) : Keeps Buffers (modify f : GdbM Unit) := by
  apply Keeps.modify
  intro s hcap
  refine ⟨?_, [], ?_, ?_⟩
  · rw [hbuf]
    exact hcap
  · rw [hsent, List.append_nil]
  · rw [hbuf, List.append_nil]

theorem buffers_hexBytes (buf : List Byte) :
    Keeps Buffers (buf.forM fun b => send (hexByte b)) := by
  induction buf with
  | nil => exact Keeps.pure _
  | cons b buf ih => exact (buffers_send _).bind fun _ => ih

/-- When the code returns, it has sent `k` bytes. -/
structure Grows {α : Type} (k : Nat) (x : GdbM α) : Prop where
  ok : ∀ {s a s'}, x s = .ok a s' → s'.sent.length = s.sent.length + k

theorem Grows.bind {α γ : Type} {j k : Nat} {x : GdbM α} {f : α → GdbM γ} (hx : Grows j x)
    (hf : ∀ a, Grows k (f a)) : Grows (j + k) (x >>= f) := by
  constructor
  intro s c s' h
  obtain ⟨a, mid, hfirst, hrest⟩ := bind_ok h
  rw [(hf a).ok hrest, hx.ok hfirst, Nat.add_assoc]

theorem grows_send (msg : List Byte) : Grows msg.length (send msg) := by
  constructor
  intro s a s' h
  rw [(send_ok h).1, List.length_append]

theorem grows_modify {f : GdbServer → GdbServer} (hsent : ∀ s, (f s).sent = s.sent) :
    Grows 0 (modify f : GdbM Unit) := by
  constructor
  intro s a s' h
  cases h
  rw [hsent, Nat.add_zero]

theorem grows_hexBytes (buf : List Byte) :
    Grows (2 * buf.length) (buf.forM fun b => send (hexByte b)) := by
  induction buf with
  | nil =>
      constructor
      intro s a s' h
      cases h
      rfl
  | cons b buf ih =>
      have hall := (grows_send (hexByte b)).bind fun _ => ih
      rw [List.length_cons, Nat.mul_add, Nat.mul_one, Nat.add_comm]
      exact hall

/-! ## The reply -/

/-- What the last step of a read sends. -/
def replyBytes (buf : List Byte) : GdbM Unit := do
  startPacket
  buf.forM fun b => send (hexByte b)
  endPacket

theorem buffers_startPacket : Keeps Buffers startPacket :=
  (buffers_send _).bind fun _ => buffers_modify (fun _ => rfl) fun _ => rfl

theorem buffers_endPacket : Keeps Buffers endPacket :=
  Keeps.get.bind fun _ => (buffers_send _).bind fun _ => buffers_modify (fun _ => rfl) fun _ => rfl

theorem buffers_replyBytes (buf : List Byte) : Keeps Buffers (replyBytes buf) :=
  buffers_startPacket.bind fun _ => (buffers_hexBytes buf).bind fun _ => buffers_endPacket

theorem buffers_sendPacket (data : String) : Keeps Buffers (sendPacket data) :=
  buffers_startPacket.bind fun _ => (buffers_send _).bind fun _ => buffers_endPacket.bind fun _ =>
    buffers_modify (fun _ => rfl) fun _ => rfl

theorem grows_replyBytes (buf : List Byte) : Grows (2 * buf.length + 4) (replyBytes buf) := by
  have hreset : Grows 0 (modify fun s => { s with runningChecksum := 0 }) :=
    grows_modify fun _ => rfl
  have hack : Grows 0 (modify fun s => { s with expectAck := true }) := grows_modify fun _ => rfl
  have hstart : Grows 1 startPacket := (grows_send (text "$")).bind fun _ => hreset
  have hend : Grows 3 endPacket := by
    constructor
    intro s a s' h
    have hclose : Grows 3 (do
        send (ascii '#' :: hexByte s.runningChecksum)
        modify fun s => { s with expectAck := true }) :=
      (grows_send (ascii '#' :: hexByte s.runningChecksum)).bind fun _ => hack
    exact hclose.ok h
  have hall := hstart.bind fun _ => (grows_hexBytes buf).bind fun _ => hend
  rw [show 2 * buf.length + 4 = 1 + (2 * buf.length + 3) by omega]
  exact hall

/-- A reply that was sent was not longer than the buffer. -/
theorem replyBytes_fits {buf : List Byte} {s' : GdbServer} (h : replyBytes buf s = .ok () s')
    (hcap : s.sendBuf.capacity = 65536) : 2 * buf.length + 4 ≤ 65534 := by
  obtain ⟨hcap', out, hsent, hcontents⟩ := (buffers_replyBytes buf).ok h hcap
  have hgrows := (grows_replyBytes buf).ok h
  have hlt := s'.sendBuf.size_lt
  rw [hsent, List.length_append] at hgrows
  rw [← RingBuffer.length_contents, hcontents, List.length_append, hcap'] at hlt
  omega

/-- What is sent into a buffer that was written out is what the buffer holds. -/
theorem contents_of_emits {x : GdbM Unit} {out : List Byte} (hx : Keeps Buffers x)
    (hdoes : Does x s fun _ s' => Emits s out s') (hcap : s.sendBuf.capacity = 65536)
    (hflushed : s.sendBuf.contents = []) :
    ∃ s', x s = .ok () s' ∧ s'.sendBuf.contents = out := by
  obtain ⟨⟨⟩, s', hrun, he⟩ := hdoes.ok
  obtain ⟨-, out', hsent, hcontents⟩ := hx.ok hrun hcap
  have hout : out' = out := List.append_cancel_left (hsent.symm.trans he.sent)
  exact ⟨s', hrun, by rw [hcontents, hflushed, hout, List.nil_append]⟩

/-- **What fits into a buffer that was written out.** -/
theorem replyBytes_iff (buf : List Byte) (hcap : s.sendBuf.capacity = 65536)
    (hflushed : s.sendBuf.contents = []) :
    (∃ s', replyBytes buf s = .ok () s' ∧ s'.sendBuf.contents = frame (buf.flatMap hexByte)) ↔
      (frame (buf.flatMap hexByte)).length ≤ 65534 := by
  have hlen : (frame (buf.flatMap hexByte)).length = 2 * buf.length + 4 := by
    rw [length_frame, length_flatMap_hexByte]
  constructor
  · rintro ⟨s', hrun, -⟩
    rw [hlen]
    exact replyBytes_fits hrun hcap
  · intro hfits
    have hsize : s.sendBuf.size = 0 := by rw [← RingBuffer.length_contents, hflushed]; rfl
    have hroom : Roomy s (2 * buf.length + 4) := ⟨hcap, by omega⟩
    exact contents_of_emits (buffers_replyBytes buf) (emits_replyBytes buf hroom) hcap hflushed

/-! ## The steps of a read -/

/-- What a step after the first does, when the hart hit no exception and left `value`. -/
theorem stepMemoryRead_eq (hop : Reading total op) (hstep : step ≠ 0)
    (hhit : exceptionHit s = .ok false s) (hvalue : drRead .data1 s = .ok value s) :
    stepMemoryRead op step s =
      (if (op.next (lowBytes op.accessSize value)).length = 0 then do
        replyBytes (op.next (lowBytes op.accessSize value)).buf
        return none
      else do
        drWrite .data0 (op.next (lowBytes op.accessSize value)).paddr
        setInterrupt
        return some (Operation.memoryRead (op.next (lowBytes op.accessSize value)))) s := by
  have hle := hop.access_le
  have hcount := hop.count
  have hput : putBytes (lowBytes op.accessSize value) op s = _ :=
    putBytes_eq hop.data (by rw [length_lowBytes, hop.size]; omega) s
  rw [stepMemoryRead, if_neg hstep, bind_eq_of_ok hhit]
  dsimp only
  rw [if_neg Bool.false_ne_true, bind_eq_of_ok hvalue, bind_eq_of_ok hput]
  change (if (op.next (lowBytes op.accessSize value)).length = 0 then _ else _ :
    GdbM (Option Operation)) s = _
  by_cases hzero : (op.next (lowBytes op.accessSize value)).length = 0
  · rw [if_pos hzero, if_pos hzero]
    simp only [hop.data, Option.isNone_none, if_true, replyBytes, bind_assoc]
    rfl
  · rw [if_neg hzero, if_neg hzero]
    rfl

/-- The bytes that were read, when the last access is answered. -/
def MemoryRead.received (op : MemoryRead) (value : Reg) : List Byte :=
  op.buf ++ lowBytes op.accessSize value

theorem Reading.length_received (hop : Reading total op)
    (hlast : op.length.toNat = op.accessSize) (value : Reg) :
    (op.received value).length = total := by
  rw [MemoryRead.received, List.length_append, length_lowBytes, ← hlast]
  exact hop.count

theorem stepMemoryRead_last (hop : Reading total op) (hlast : op.length.toNat = op.accessSize)
    (hstep : step ≠ 0) (hhit : exceptionHit s = .ok false s)
    (hvalue : drRead .data1 s = .ok value s) :
    stepMemoryRead op step s = (do replyBytes (op.received value); return none) s := by
  have hzero : (op.next (lowBytes op.accessSize value)).length = 0 := by
    apply BitVec.eq_of_toNat_eq
    rw [hop.length_next, hlast, Nat.sub_self]
    rfl
  rw [stepMemoryRead_eq hop hstep hhit hvalue, if_pos hzero]
  rfl

/-! ## Replies that fit -/

/-- `PacketSize`, as `handle_query` advertises it. -/
def packetSize : Nat := 131072

/-- The packet with which a step replies: the bytes that were read, or an error if the hart hit
an exception. -/
def MemoryRead.reply (op : MemoryRead) (hit : Bool) (value : Reg) : List Byte :=
  frame (if hit then text "E99" else (op.received value).flatMap hexByte)

/-- No assertion fails, and the reply is in the send buffer. -/
def QueuesReply (op : MemoryRead) (step : Nat) (hit : Bool) (value : Reg) (s : GdbServer) : Prop :=
  ∃ s', stepMemoryRead op step s = .ok none s' ∧ s'.sendBuf.contents = op.reply hit value

theorem queuesReply_error (hstep : step ≠ 0) (hhit : exceptionHit s = .ok true s)
    (hcap : s.sendBuf.capacity = 65536) (hflushed : s.sendBuf.contents = []) :
    QueuesReply op step true value s := by
  have hsize : s.sendBuf.size = 0 := by rw [← RingBuffer.length_contents, hflushed]; rfl
  have hroom : Roomy s ((text "E99").length + 4) := ⟨hcap, by rw [hsize]; decide⟩
  obtain ⟨s', hrun, hcontents⟩ := contents_of_emits (buffers_sendPacket "E99")
    (does_sendPacket hroom) hcap hflushed
  refine ⟨s', ?_, hcontents⟩
  rw [stepMemoryRead, if_neg hstep, bind_eq_of_ok hhit]
  dsimp only
  rw [if_pos rfl, bind_eq_of_ok hrun]
  rfl

theorem queuesReply_eq (hop : Reading total op) (hlast : op.length.toNat = op.accessSize)
    (hstep : step ≠ 0) (hhit : exceptionHit s = .ok false s)
    (hvalue : drRead .data1 s = .ok value s) :
    QueuesReply op step false value s ↔ ∃ s', replyBytes (op.received value) s = .ok () s' ∧
      s'.sendBuf.contents = frame ((op.received value).flatMap hexByte) := by
  rw [QueuesReply, stepMemoryRead_last hop hlast hstep hhit hvalue]
  constructor
  · rintro ⟨s', hrun, hcontents⟩
    obtain ⟨_, s₁, hreply, hrest⟩ := bind_ok hrun
    cases hrest
    exact ⟨_, hreply, hcontents⟩
  · rintro ⟨s', hreply, hcontents⟩
    exact ⟨s', by rw [bind_eq_of_ok hreply]; rfl, hcontents⟩

/-- The operation is about to reply: the hart has answered the last access, or it hit an
exception. -/
structure Replying (total : Nat) (op : MemoryRead) (step : Nat) (hit : Bool) (value : Reg)
    (s : GdbServer) : Prop where
  reading : Reading total op
  last : hit = false → op.length.toNat = op.accessSize
  step : step ≠ 0
  exceptionHit : exceptionHit s = .ok hit s
  value : drRead .data1 s = .ok value s
  capacity : s.sendBuf.capacity = 65536
  flushed : s.sendBuf.contents = []

theorem Replying.length_reply (h : Replying total op step false value s) :
    (op.reply false value).length = 2 * total + 4 := by
  rw [MemoryRead.reply, length_frame, if_neg Bool.false_ne_true, length_flatMap_hexByte,
    h.reading.length_received (h.last rfl)]

theorem Replying.fits_iff (h : Replying total op step false value s) :
    QueuesReply op step false value s ↔ 2 * total + 4 ≤ 65534 := by
  rw [queuesReply_eq h.reading (h.last rfl) h.step h.exceptionHit h.value,
    replyBytes_iff _ h.capacity h.flushed, ← h.length_reply]
  rfl

/-- **Which replies fit.**  A read of `total` bytes queues its reply, `2 * total` digits in a
packet, if and only if the packet has no more than 65534 bytes.  An error is always queued. -/
theorem memory_read_reply_fits_iff {hit : Bool} (h : Replying total op step hit value s) :
    QueuesReply op step hit value s ↔ (hit = false → 2 * total + 4 ≤ 65534) := by
  cases hit with
  | true =>
      have herror : QueuesReply op step true value s :=
        queuesReply_error h.step h.exceptionHit h.capacity h.flushed
      exact iff_of_true herror fun hfalse => absurd hfalse (by decide)
  | false => exact h.fits_iff.trans ⟨fun hfits _ => hfits, fun hfits => hfits rfl⟩

/-- A read in which the last access is a byte. -/
def lastByteRead (buf : List Byte) : MemoryRead where
  vaddr := 0x80000000
  length := 1
  data := none
  paddr := 0x80000000 + BitVec.ofNat 64 buf.length
  accessSize := 1
  buf := buf
  size := buf.length + 1

theorem replying_lastByteRead (buf : List Byte) :
    Replying (buf.length + 1) (lastByteRead buf) 1 false 0 haltedServer where
  reading := ⟨rfl, rfl, rfl, one_dvd _, Nat.one_pos, show (1 : Word) ≠ 0 by decide⟩
  last _ := rfl
  step := Nat.one_ne_zero
  exceptionHit := rfl
  value := rfl
  capacity := rfl
  flushed := rfl

theorem reply_of_one_byte_fits :
    Replying 1 (lastByteRead []) 1 false 0 haltedServer ∧
      QueuesReply (lastByteRead []) 1 false 0 haltedServer :=
  ⟨replying_lastByteRead [],
    (memory_read_reply_fits_iff (replying_lastByteRead [])).mpr fun _ => by decide⟩

/-- A reply of 65536 bytes is half as long as the packet size. -/
theorem reply_within_packetSize_fails :
    ¬∀ (total step : Nat) (op : MemoryRead) (hit : Bool) (value : Reg) (s : GdbServer),
      Replying total op step hit value s → (op.reply hit value).length ≤ packetSize →
        QueuesReply op step hit value s := by
  intro h
  let buf : List Byte := List.replicate 32765 0
  have hlen : buf.length = 32765 := List.length_replicate
  have hreplying := replying_lastByteRead buf
  have hreply : ((lastByteRead buf).reply false 0).length ≤ packetSize := by
    rw [hreplying.length_reply, hlen]
    decide
  have hfits := hreplying.fits_iff.mp (h _ 1 _ false 0 haltedServer hreplying hreply)
  rw [hlen] at hfits
  exact absurd hfits (by decide)

/-! ## Accesses -/

/-- The code ends by interrupting the hart, and the operation goes on as `op`. -/
def Asks (x : GdbM (Option Operation)) (op : Operation) : Prop :=
  ∀ s, Wide s → Does x s fun r s' =>
    r = some op ∧ Emits s [] s' ∧ 0 ∈ s'.debugModule.interrupt

theorem asks_setInterrupt (op : Operation) : Asks (do setInterrupt; return some op) op := by
  intro s _
  refine Does.of_ok rfl ⟨rfl, ?_, List.mem_insert_self⟩
  exact ⟨(List.append_nil _).symm, rfl, rfl, rfl, rfl, rfl, rfl, rfl, rfl, rfl⟩

theorem Quiet.asks {α : Type} {x : GdbM α} {f : α → GdbM (Option Operation)} {op : Operation}
    (hx : Quiet x) (hf : ∀ a, Asks (f a) op) : Asks (x >>= f) op := by
  intro s hs
  apply hx.next hs
  intro a s₁ he _
  apply (hf a s₁ (he.wide hs)).imp
  rintro r s₂ ⟨hr, he', hasked⟩
  exact ⟨hr, he.trans he', hasked⟩

theorem asks_firstAccess (paddr : Reg) (op : MemoryRead) (accessSize : Nat) :
    Asks (do
      drWriteLoad 0 s0 .data0
      drWrite32 1 (loadBySize accessSize)
      drWriteStore 2 s1 .data1
      drWriteJump 3
      drWrite .data0 paddr
      setInterrupt
      return some (Operation.memoryRead op)) (.memoryRead op) :=
  (Quiet.drWriteLoad _ _ _).asks fun _ => (Quiet.drWrite32 _ _).asks fun _ =>
    (Quiet.drWriteStore _ rfl).asks fun _ => (Quiet.drWriteJump _).asks fun _ =>
    (Quiet.drWrite _ _).asks fun _ => asks_setInterrupt _

/-- The hart hit no exception. -/
def NoException (d : DebugModule) : Prop := ramRead32 d lastWord = 0

theorem exceptionHit_eq {d : DebugModule} (h : NoException d) (s : GdbServer) :
    exceptionHit (s.withDebugModule d) = .ok false (s.withDebugModule d) := by
  have hrun : exceptionHit (s.withDebugModule d) =
      .ok (decide (ramRead32 d lastWord ≠ 0)) (s.withDebugModule d) := rfl
  rw [hrun, h]
  rfl

theorem exists_drRead (hs : Wide s) (slot : Slot) : ∃ value, drRead slot s = .ok value s := by
  rcases hs with hx | hx
  · exact ⟨_, by simp only [drRead, run_bind, run_get, hx]; rfl⟩
  · exact ⟨_, by simp only [drRead, run_bind, run_get, hx]; rfl⟩

/-- An access of a read of `total` bytes is due: it is aligned, its bytes lie within the length,
and the hart is asked for it. -/
structure AccessDue (total : Nat) (op : MemoryRead) (s : GdbServer) : Prop where
  aligned : op.accessSize ∣ op.paddr.toNat
  inside : op.buf.length + op.accessSize ≤ total
  noWrap : op.accessSize ≤ op.length.toNat
  asked : 0 ∈ s.debugModule.interrupt

/-- `n` accesses are due, one after the other, and then the read of `total` bytes replies. -/
def AccessesLeft (total : Nat) (base : List Byte) : Nat → GdbServer → Prop
  | 0, s => s.operationQueue = [] ∧
      ∃ buf : List Byte, buf.length = total ∧ s.sent = base ++ frame (buf.flatMap hexByte)
  | n + 1, s => ∃ op step, s.operationQueue = [(.memoryRead op, step + 1)] ∧
      AccessDue total op s ∧
      ∀ d, NoException d → Does (answerStep d) s fun _ s' => AccessesLeft total base n s'

/-- A read of `length` bytes from `paddr` makes as many accesses as the bytes have units of the
access size, and replies with two digits for each byte. -/
def ReadStops (length paddr : Reg) (s : GdbServer) : Prop :=
  ∀ d, Does (answerStep d) s fun _ s' =>
    AccessesLeft length.toNat s.sent
      (length.toNat / findAccessSize s.xlen paddr (length.setWidth 32)) s'

/-! ## A read under way -/

/-- Everything before the read was written out, and `op` is all that is left in the queue. -/
structure UnderWay (base : List Byte) (op : MemoryRead) (step : Nat) (s : GdbServer) : Prop
    extends Waiting base s where
  flushed : s.sendBuf.size = 0
  operationQueue : s.operationQueue = [(.memoryRead op, step)]

/-- A step that sends nothing, and the read goes on. -/
theorem UnderWay.advance {base : List Byte} {op op' : MemoryRead} {d : DebugModule}
    {s' : GdbServer} (h : UnderWay base op step s) (he : Emits (s.withDebugModule d) [] s') :
    UnderWay base op' (step + 1) (s'.advance (some (.memoryRead op')) step) := by
  have ha := he.advance h.capacity (some (.memoryRead op')) step
  refine ⟨h.toWaiting.after ha, ha.size, ?_⟩
  simp only [GdbServer.advance, he.operationQueue]
  exact congrArg _ (congrArg List.tail h.operationQueue)

/-- A step after which more accesses are due. -/
theorem UnderWay.more {base : List Byte} {d : DebugModule} (h : UnderWay base op (step + 1) s)
    (hop : Reading total op) (hd : NoException d) (hmore : op.length.toNat ≠ op.accessSize) :
    ∃ value s', answerStep d s = .ok () s' ∧ 0 ∈ s'.debugModule.interrupt ∧
      Reading total (op.next (lowBytes op.accessSize value)) ∧
      UnderWay base (op.next (lowBytes op.accessSize value)) (step + 2) s' := by
  have hs := h.wide.withDebugModule d
  obtain ⟨value, hvalue⟩ := exists_drRead hs .data1
  have hlength := hop.length_next (lowBytes op.accessSize value)
  have hle := hop.access_le
  have hne : (op.next (lowBytes op.accessSize value)).length ≠ 0 := by
    intro hzero
    rw [hzero, show (0 : Word).toNat = 0 from rfl] at hlength
    omega
  have hprogram : Asks (do
      drWrite .data0 (op.next (lowBytes op.accessSize value)).paddr
      setInterrupt
      return some (Operation.memoryRead (op.next (lowBytes op.accessSize value))))
      (.memoryRead (op.next (lowBytes op.accessSize value))) :=
    (Quiet.drWrite _ _).asks fun _ => asks_setInterrupt _
  obtain ⟨_, s', hrun, rfl, he, hasked⟩ := (hprogram _ hs).ok
  have hstep : performStep (step + 1) (.memoryRead op) (s.withDebugModule d) = _ :=
    (stepMemoryRead_eq hop step.succ_ne_zero (exceptionHit_eq hd s) hvalue).trans
      ((congrFun (if_neg hne) _).trans hrun)
  refine ⟨value, _, run_answerStep h.operationQueue hstep, hasked, ?_, h.advance he⟩
  exact hop.next (length_lowBytes _ _) hne

/-- The step after the last access. -/
theorem UnderWay.last {base : List Byte} {d : DebugModule} (h : UnderWay base op (step + 1) s)
    (hop : Reading total op) (hd : NoException d) (hlast : op.length.toNat = op.accessSize) :
    (2 * total + 4 ≤ 65534 → ∃ (buf : List Byte) (s' : GdbServer), answerStep d s = .ok () s' ∧
      s'.operationQueue = [] ∧ buf.length = total ∧
      s'.sent = base ++ frame (buf.flatMap hexByte)) ∧
    ((∃ s', answerStep d s = .ok () s') → 2 * total + 4 ≤ 65534) := by
  have hs := h.wide.withDebugModule d
  obtain ⟨value, hvalue⟩ := exists_drRead hs .data1
  have hlen := hop.length_received hlast value
  have hstep : performStep (step + 1) (.memoryRead op) (s.withDebugModule d) = _ :=
    stepMemoryRead_last hop hlast step.succ_ne_zero (exceptionHit_eq hd s) hvalue
  constructor
  · intro hfits
    have hroom : Roomy (s.withDebugModule d) (2 * (op.received value).length + 4) := by
      refine ⟨h.capacity, ?_⟩
      have hflushed : (s.withDebugModule d).sendBuf.size = 0 := h.flushed
      rw [hflushed, hlen]
      omega
    obtain ⟨⟨⟩, s', hrun, he⟩ := (emits_replyBytes _ hroom).ok
    have hreply : replyBytes (op.received value) (s.withDebugModule d) = .ok () s' := hrun
    rw [bind_eq_of_ok hreply] at hstep
    have ha := he.advance h.capacity none (step + 1)
    refine ⟨op.received value, _, run_answerStep h.operationQueue hstep, ?_, hlen, ?_⟩
    · simp only [GdbServer.advance, he.operationQueue]
      exact congrArg List.tail h.operationQueue
    · rw [ha.sent, h.sent]
  · rintro ⟨s', hrun⟩
    obtain ⟨r, s₁, hperform⟩ := performStep_of_answerStep h.operationQueue hrun
    rw [hstep] at hperform
    obtain ⟨⟨⟩, s₂, hreply, -⟩ := bind_ok hperform
    have hfits := replyBytes_fits hreply h.capacity
    rw [hlen] at hfits
    exact hfits

/-! ## From the first access to the reply -/

/-- The size of the accesses divides the address. -/
def Aligned (op : MemoryRead) : Prop := op.accessSize ∣ 2 ^ 64 ∧ op.accessSize ∣ op.paddr.toNat

theorem Aligned.next (h : Aligned op) (bs : List Byte) : Aligned (op.next bs) := by
  refine ⟨h.1, ?_⟩
  simp only [MemoryRead.next, BitVec.toNat_add, BitVec.toNat_ofNat]
  apply (Nat.dvd_mod_iff h.1).mpr
  exact Nat.dvd_add h.2 ((Nat.dvd_mod_iff h.1).mpr (dvd_refl _))

/-- The read as it goes on after its first step. -/
def startedRead (xlen : Nat) (address paddr : Reg) (length : Word) : MemoryRead :=
  ⟨address, length, none, paddr, findAccessSize xlen paddr length, [], length.toNat⟩

theorem aligned_startedRead (xlen : Nat) (address paddr : Reg) (length : Word) :
    Aligned (startedRead xlen address paddr length) := by
  refine ⟨?_, findAccessSize_dvd_address xlen paddr length⟩
  change findAccessSize xlen paddr length ∣ _
  rcases findAccessSize_cases xlen paddr length with h | h | h
  · rw [h]; decide
  · rw [h]; decide
  · rw [h]; decide

theorem reading_startedRead (xlen : Nat) (address paddr : Reg) {length : Word}
    (hlength : length ≠ 0) : Reading length.toNat (startedRead xlen address paddr length) := by
  exact ⟨rfl, rfl, Nat.zero_add _, findAccessSize_dvd _ _ _, findAccessSize_pos _ _ _, hlength⟩

/-- With room for the reply, all accesses are made and the reply follows. -/
theorem UnderWay.accessesLeft {base : List Byte} (h : UnderWay base op (step + 1) s)
    (hop : Reading total op) (haligned : Aligned op) (hasked : 0 ∈ s.debugModule.interrupt)
    (hn : op.length.toNat = n * op.accessSize) (hfits : 2 * total + 4 ≤ 65534) :
    AccessesLeft total base n s := by
  induction n generalizing s op step with
  | zero =>
      have hle := hop.access_le
      have hpos := hop.accessPos
      omega
  | succ n ih =>
      have hle := hop.access_le
      have hcount := hop.count
      refine ⟨op, step, h.operationQueue, ⟨haligned.2, by omega, hle, hasked⟩, fun d hd => ?_⟩
      by_cases hlast : op.length.toNat = op.accessSize
      · have hnone : n = 0 := by
          have hpos := hop.accessPos
          rw [hlast, Nat.succ_mul] at hn
          have hzero : n * op.accessSize = 0 := by omega
          exact (Nat.mul_eq_zero.mp hzero).resolve_right hpos.ne'
        subst hnone
        obtain ⟨buf, s', hrun, hq, hlen, hsent⟩ := (h.last hop hd hlast).1 hfits
        exact Does.of_ok hrun ⟨hq, buf, hlen, hsent⟩
      · obtain ⟨value, s', hrun, hasked', hop', h'⟩ := h.more hop hd hlast
        apply Does.of_ok hrun
        apply ih h' hop' (haligned.next _) hasked'
        rw [hop.length_next, hn, Nat.succ_mul, Nat.add_sub_cancel]
        rfl

/-- A read that replies with `total` bytes was one of `total` bytes, and there was room. -/
theorem UnderWay.total_eq {base : List Byte} {count : Nat} (h : UnderWay base op (step + 1) s)
    (hop : Reading count op) (hleft : AccessesLeft total base n s) :
    total = count ∧ 2 * count + 4 ≤ 65534 := by
  induction n generalizing s op step with
  | zero =>
      have hq := h.operationQueue
      rw [hleft.1] at hq
      cases hq
  | succ n ih =>
      obtain ⟨-, -, -, -, hall⟩ := hleft
      have hd : NoException blankDebugModule := rfl
      obtain ⟨⟨⟩, s', hrun, hleft'⟩ := (hall _ hd).ok
      by_cases hlast : op.length.toNat = op.accessSize
      · have hfits := (h.last hop hd hlast).2 ⟨s', hrun⟩
        obtain ⟨buf, s₁, hrun₁, hq, hlen, hsent⟩ := (h.last hop hd hlast).1 hfits
        rw [hrun] at hrun₁
        cases hrun₁
        cases n with
        | zero =>
            obtain ⟨-, buf', hlen', hsent'⟩ := hleft'
            have hframes := congrArg List.length
              (List.append_cancel_left (hsent'.symm.trans hsent))
            rw [length_frame, length_frame, length_flatMap_hexByte, length_flatMap_hexByte] at hframes
            exact ⟨by omega, hfits⟩
        | succ n =>
            obtain ⟨_, _, hq', -⟩ := hleft'
            rw [hq] at hq'
            cases hq'
      · obtain ⟨value, s₁, hrun₁, -, hop', h'⟩ := h.more hop hd hlast
        rw [hrun] at hrun₁
        cases hrun₁
        exact ih h' hop' hleft'

/-! ## The whole read -/

/-- The translation does not depend on the debug module. -/
theorem translate_withDebugModule {vaddr paddr : Reg} (h : translate vaddr s = .ok paddr s)
    (d : DebugModule) :
    translate vaddr (s.withDebugModule d) = .ok paddr (s.withDebugModule d) := by
  cases htables : tableShape s.virtualMemory with
  | none =>
      simp only [translate, currentTables, run_bind, run_get, htables] at h
      cases h
  | some tables =>
      have hcache : (s.withDebugModule d).pteCache = s.pteCache := rfl
      have hsptbr : (s.withDebugModule d).sptbr = s.sptbr := rfl
      have htables' : tableShape (s.withDebugModule d).virtualMemory = some tables := htables
      cases tables with
      | none =>
          simp only [translate, run_bind, run_currentTables htables, run_pure] at h
          simp only [translate, run_bind, run_currentTables htables', run_pure]
          cases h
          rfl
      | some shape =>
          simp only [translate, run_bind, run_currentTables htables, run_get] at h
          simp only [translate, run_bind, run_currentTables htables', run_get, hcache, hsptbr]
          cases hwalk : walkCache s.pteCache shape.ptidxbits shape.ptesize vaddr shape.levels
              (s.sptbr <<< Riscv.pgshift) with
          | missing a =>
              simp only [hwalk] at h
              cases h
          | leaf pte ptshift =>
              simp only [hwalk] at h
              cases h
              rfl
          | exhausted =>
              simp only [hwalk] at h
              cases h
              rfl

/-- A read is about to take its first step, and the address can be translated. -/
structure ReadQueued (address length paddr : Reg) (s : GdbServer) : Prop where
  wide : Wide s
  capacity : s.sendBuf.capacity = 65536
  translates : translate address s = .ok paddr s
  operationQueue : s.operationQueue = [(newMemoryRead address (length.setWidth 32) none, 0)]

/-- The first step asks for the first access, whatever the length is. -/
theorem ReadQueued.first {address length paddr : Reg} (h : ReadQueued address length paddr s)
    (d : DebugModule) :
    ∃ s', answerStep d s = .ok () s' ∧ 0 ∈ s'.debugModule.interrupt ∧
      UnderWay s.sent (startedRead s.xlen address paddr (length.setWidth 32)) 1 s' := by
  have hs := h.wide.withDebugModule d
  obtain ⟨_, s', hrun, rfl, he, hasked⟩ := (asks_firstAccess paddr
    (startedRead s.xlen address paddr (length.setWidth 32))
    (findAccessSize s.xlen paddr (length.setWidth 32)) (s.withDebugModule d) hs).ok
  have hstep : performStep 0 (newMemoryRead address (length.setWidth 32) none)
      (s.withDebugModule d) = .ok (some (.memoryRead
        (startedRead s.xlen address paddr (length.setWidth 32)))) s' := by
    change stepMemoryRead _ 0 _ = _
    rw [stepMemoryRead, if_pos rfl, bind_eq_of_ok (translate_withDebugModule h.translates d)]
    exact hrun
  have ha := he.advance h.capacity (some (.memoryRead
    (startedRead s.xlen address paddr (length.setWidth 32)))) 0
  refine ⟨_, run_answerStep h.operationQueue hstep, hasked, ⟨?_, ?_, ?_, ?_⟩, ha.size, ?_⟩
  · rw [ha.sent, List.append_nil]
  · rw [Wide, ha.xlen]
    exact h.wide
  · exact ha.capacity.trans h.capacity
  · exact ha.size.le.trans (Nat.zero_le 1)
  · simp only [GdbServer.advance, he.operationQueue]
    exact congrArg _ (congrArg List.tail h.operationQueue)

/-- A length of zero, as the operation has it, is subtracted from. -/
theorem ReadQueued.not_stops {address length paddr : Reg} (h : ReadQueued address length paddr s)
    (hzero : length.setWidth 32 = (0 : Word)) : ¬ReadStops length paddr s := by
  intro hstops
  obtain ⟨⟨⟩, s₁, hrun, hleft⟩ := (hstops blankDebugModule).ok
  obtain ⟨s', hrun', -, hunder⟩ := h.first blankDebugModule
  rw [hrun] at hrun'
  cases hrun'
  have hq := hunder.operationQueue
  generalize length.toNat / findAccessSize s.xlen paddr (length.setWidth 32) = n at hleft
  cases n with
  | zero =>
      rw [hleft.1] at hq
      cases hq
  | succ n =>
      obtain ⟨op, step, hq', hdue, -⟩ := hleft
      rw [hq] at hq'
      cases hq'
      have hpos := findAccessSize_pos s.xlen paddr (length.setWidth 32)
      have hle : findAccessSize s.xlen paddr (length.setWidth 32) ≤
          (length.setWidth 32 : Word).toNat := hdue.noWrap
      rw [hzero] at hpos hle
      exact absurd (hpos.trans_le hle) (by decide)

/-- **When a read stops after its length.** -/
theorem memory_read_stops_iff {address length paddr : Reg} (h : ReadQueued address length paddr s) :
    ReadStops length paddr s ↔ 0 < length.toNat ∧ length.toNat ≤ 32765 := by
  constructor
  · intro hstops
    have hne : length.setWidth 32 ≠ (0 : Word) := fun hzero => h.not_stops hzero hstops
    obtain ⟨⟨⟩, s₁, hrun, hleft⟩ := (hstops blankDebugModule).ok
    obtain ⟨s', hrun', -, hunder⟩ := h.first blankDebugModule
    rw [hrun] at hrun'
    cases hrun'
    obtain ⟨htotal, hfits⟩ := hunder.total_eq (reading_startedRead _ _ _ hne) hleft
    have hpos : (length.setWidth 32 : Word).toNat ≠ 0 := fun hzero =>
      hne (BitVec.eq_of_toNat_eq hzero)
    omega
  · rintro ⟨hpos, hle⟩ d
    have htotal : (length.setWidth 32 : Word).toNat = length.toNat := by
      rw [BitVec.toNat_setWidth]
      exact Nat.mod_eq_of_lt (by omega)
    have hne : length.setWidth 32 ≠ (0 : Word) := by
      intro hzero
      rw [hzero] at htotal
      exact absurd htotal hpos.ne
    obtain ⟨s', hrun, hasked, hunder⟩ := h.first d
    have hop := reading_startedRead s.xlen address paddr hne
    apply Does.of_ok hrun
    rw [htotal] at hop
    apply hunder.accessesLeft hop (aligned_startedRead _ _ _ _) hasked _ (by omega)
    change (length.setWidth 32 : Word).toNat = _
    rw [htotal]
    have hdvd := findAccessSize_dvd s.xlen paddr (length.setWidth 32)
    rw [htotal] at hdvd
    exact (Nat.div_mul_cancel hdvd).symm

/-- A halted server with a read in the queue. -/
def readingServer (address length : Reg) : GdbServer :=
  { haltedServer with operationQueue := [(newMemoryRead address (length.setWidth 32) none, 0)] }

theorem readQueued_readingServer (address length : Reg) :
    ReadQueued address length address (readingServer address length) where
  wide := .inl rfl
  capacity := rfl
  translates := by
    have htables : tableShape (readingServer address length).virtualMemory = some none :=
      show tableShape haltedServer.virtualMemory = some none by decide
    simp only [translate, run_bind, run_currentTables htables]
    rfl
  operationQueue := rfl

theorem read_of_ten_bytes_stops :
    ReadQueued 0x80000000 10 0x80000000 (readingServer 0x80000000 10) ∧
      ReadStops 10 0x80000000 (readingServer 0x80000000 10) :=
  ⟨readQueued_readingServer _ _,
    (memory_read_stops_iff (readQueued_readingServer 0x80000000 10)).mpr (by decide)⟩

/-- A read of no bytes makes an access, and the length wraps. -/
theorem read_of_no_bytes_goes_on :
    ¬∀ (address length paddr : Reg) (s : GdbServer), ReadQueued address length paddr s →
      ReadStops length paddr s := by
  intro h
  have hqueued := readQueued_readingServer 0x80000000 0
  exact hqueued.not_stops rfl (h _ _ _ _ hqueued)

end SpikeSim.Gdb
