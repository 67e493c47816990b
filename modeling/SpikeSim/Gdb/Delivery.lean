/-
# Packets that arrive whole

A packet whose payload holds neither `$` nor `#` is found by `process_requests` with its last
byte, in one piece, however the bytes arrive.  `start_packet`, the calls of `send` after it
and `end_packet` make up such a packet: the checksum is added up in every `send`, those of
the delimiters included, but it starts over behind the `$` and is written in front of what
the `#` adds to it.
-/

import SpikeSim.Gdb.Screening

namespace SpikeSim.Gdb

variable {expectAck : Bool} {payload : List Byte} {h₁ h₂ : Byte}

/-! ## The scan of a packet -/

/-- `$`, the payload, `#` and two characters for the checksum. -/
def packetOf (payload : List Byte) (h₁ h₂ : Byte) : List Byte :=
  ascii '$' :: (payload ++ [ascii '#', h₁, h₂])

theorem length_packetOf : (packetOf payload h₁ h₂).length = payload.length + 4 := by
  simp [packetOf]

/-- Up to two bytes behind bytes without a `#` are no end of a packet. -/
theorem complete_eq_false {packet rest : List Byte} (hhash : ascii '#' ∉ packet.tail)
    (hrest : rest.length ≤ 2) : complete (packet ++ rest) = false := by
  rw [Bool.eq_false_iff]
  intro h
  simp only [complete, Bool.and_eq_true, decide_eq_true_eq, List.length_append] at h
  obtain ⟨hlen, hget⟩ := h
  rw [List.getElem?_append_left (by omega)] at hget
  obtain ⟨i, hi⟩ : ∃ i, packet.length + rest.length - 3 = i + 1 :=
    ⟨packet.length + rest.length - 4, by omega⟩
  rw [hi, ← List.getElem?_tail] at hget
  exact hhash (List.mem_of_getElem? hget)

theorem complete_end {packet : List Byte} (hne : packet ≠ []) :
    complete (packet ++ [ascii '#', h₁, h₂]) = true := by
  have hpos : 0 < packet.length := List.length_pos_iff.mpr hne
  simp only [complete, Bool.and_eq_true, decide_eq_true_eq, List.length_append, List.length_cons,
    List.length_nil]
  refine ⟨by omega, ?_⟩
  rw [Nat.add_sub_cancel, List.getElem?_append_right le_rfl, Nat.sub_self]
  rfl

theorem scanBytes_push {packet : List Byte} {b : Byte} {s : List Byte} (hne : packet ≠ [])
    (hb : b ≠ ascii '$') (hcomplete : complete (packet ++ [b]) = false) :
    scanBytes expectAck (b :: s) packet = scanBytes expectAck s (packet ++ [b]) := by
  have hempty : packet.isEmpty = false := by simpa using hne
  rw [scanBytes]
  simp [hempty, hb, hcomplete]

/-- The scan from inside the payload on. -/
theorem scanBytes_payload {packet : List Byte} (hne : packet ≠ [])
    (hhash : ascii '#' ∉ packet.tail) (hplain : Plain payload) (hh₁ : h₁ ≠ ascii '$')
    (hh₂ : h₂ ≠ ascii '$') (t : List Byte) :
    scanBytes expectAck (payload ++ ascii '#' :: h₁ :: h₂ :: t) packet =
      .packet (packet.length + payload.length + 2) (packet ++ payload ++ [ascii '#', h₁, h₂]) := by
  induction payload generalizing packet with
  | nil =>
      have hone : complete (packet ++ [ascii '#']) = false :=
        complete_eq_false hhash (by decide)
      have htwo : complete (packet ++ [ascii '#'] ++ [h₁]) = false := by
        rw [List.append_assoc]
        exact complete_eq_false hhash le_rfl
      have hthree : complete (packet ++ [ascii '#'] ++ [h₁] ++ [h₂]) = true := by
        rw [List.append_assoc, List.append_assoc]
        exact complete_end hne
      rw [List.nil_append, scanBytes_push hne (by decide) hone,
        scanBytes_push (by simp) hh₁ htwo, scanBytes, if_neg (by simp), if_neg (by simp),
        if_neg (by simp [hh₂]), if_pos hthree]
      simp
  | cons b payload ih =>
      obtain ⟨hdollar, hsharp⟩ := hplain
      rw [List.mem_cons, not_or] at hdollar hsharp
      have htail : ascii '#' ∉ (packet ++ [b]).tail := by
        rw [List.tail_append_of_ne_nil hne, List.mem_append, List.mem_singleton, not_or]
        exact ⟨hhash, hsharp.1⟩
      rw [List.cons_append, scanBytes_push hne (Ne.symm hdollar.1)
        (complete_eq_false hhash (by simp)), ih (by simp) htail ⟨hdollar.2, hsharp.2⟩]
      simp only [List.length_append, List.length_cons, List.length_nil, List.append_assoc,
        List.cons_append]
      congr 1
      omega

/-- **The scan ends with the last byte of a packet.** -/
theorem scanBytes_packetOf (hplain : Plain payload) (hh₁ : h₁ ≠ ascii '$')
    (hh₂ : h₂ ≠ ascii '$') :
    scanBytes expectAck (packetOf payload h₁ h₂) [] =
      .packet (payload.length + 3) (packetOf payload h₁ h₂) := by
  have hfirst : complete [ascii '$'] = false := by decide
  have hne : [ascii '$'] ≠ [] := by simp
  have hrest := @scanBytes_payload expectAck payload h₁ h₂ _ hne List.not_mem_nil hplain hh₁ hh₂ []
  rw [packetOf, scanBytes, if_neg (by simp [show ascii '$' ≠ ascii '+' by decide]),
    if_neg (by decide), if_neg (by simp), List.nil_append, if_neg (by simp [hfirst]), hrest]
  rw [List.length_singleton, Nat.add_right_comm 1, Nat.add_comm _ payload.length]
  rfl

theorem next_packetOf (hplain : Plain payload) (hh₁ : h₁ ≠ ascii '$') (hh₂ : h₂ ≠ ascii '$') :
    (framer expectAck).next (packetOf payload h₁ h₂) =
      some (.packet (packetOf payload h₁ h₂), (packetOf payload h₁ h₂).length) := by
  rw [length_packetOf]
  exact congrArg Scan.request (scanBytes_packetOf hplain hh₁ hh₂)

/-- The stream is one request and nothing else. -/
def Alone (expectAck : Bool) (packet : List Byte) : Prop :=
  (framer expectAck).next packet = some (.packet packet, packet.length)

namespace Alone

variable {packet : List Byte}

theorem frames_eq (h : Alone expectAck packet) :
    (framer expectAck).frames packet = ([.packet packet], []) := by
  rw [Framer.frames_of_some h, List.drop_length, Framer.frames_of_none (s := []) rfl]

/-- Less than all of it is not a request yet. -/
theorem next_eq_none (h : Alone expectAck packet) {s t : List Byte} (hst : s ++ t = packet)
    (ht : t ≠ []) : (framer expectAck).next s = none := by
  cases hnext : (framer expectAck).next s with
  | none => rfl
  | some r =>
      obtain ⟨request, k⟩ := r
      have hall := (framer expectAck).append t hnext
      rw [hst, show (framer expectAck).next packet = _ from h] at hall
      cases hall
      have hle := (framer expectAck).le hnext
      have hpos := List.length_pos_iff.mpr ht
      rw [← hst, List.length_append] at hle
      omega

/-- It never fills the buffer before it is complete. -/
theorem neverOverfills (h : Alone expectAck packet) {capacity : Nat}
    (hfit : packet.length < capacity) {unread : List Byte} {chunks : List (List Byte)}
    (hstream : unread ++ chunks.flatten = packet) (hcomplete : ¬Incomplete expectAck packet) :
    NeverOverfills expectAck capacity unread chunks := by
  induction chunks generalizing unread with
  | nil => trivial
  | cons chunk chunks ih =>
      rw [List.flatten_cons, ← List.append_assoc] at hstream
      have hlen := congrArg List.length hstream
      rw [List.length_append] at hlen
      rcases List.eq_nil_or_concat' chunks.flatten with hnil | ⟨init, last, hlast⟩
      · rw [hnil, List.append_nil] at hstream
        refine ⟨by omega, fun _ => by rw [hstream]; exact hcomplete, ?_⟩
        rw [hstream, h.frames_eq]
        apply neverOverfills_of_length
        rw [hnil, List.length_nil]
        have hpos := (framer expectAck).pos h
        omega
      · have hmore : chunks.flatten ≠ [] := by rw [hlast]; simp
        have hpos := List.length_pos_iff.mpr hmore
        refine ⟨by omega, fun hfull => by omega, ?_⟩
        rw [Framer.frames_of_none (h.next_eq_none hstream hmore)]
        exact ih hstream

end Alone

theorem not_incomplete_packetOf : ¬Incomplete expectAck (packetOf payload h₁ h₂) := by
  intro h
  apply h.not_complete (payload.length + 1) (by omega) (by rw [length_packetOf]; omega)
  simp [packetOf]

/-- **However a packet arrives, it is found as one request.** -/
theorem feed_packetOf (hplain : Plain payload) (hh₁ : h₁ ≠ ascii '$') (hh₂ : h₂ ≠ ascii '$')
    {recvBuf : RingBuffer Byte} (hcap : recvBuf.capacity ≤ 2 ^ 31)
    (hempty : recvBuf.contents = [])
    (hfit : (packetOf payload h₁ h₂).length < recvBuf.capacity) {chunks : List (List Byte)}
    (hchunks : chunks.flatten = packetOf payload h₁ h₂) :
    ∃ recvBuf', feed (recorder expectAck) chunks recvBuf [] =
        some (recvBuf', [.packet (packetOf payload h₁ h₂)]) ∧ recvBuf'.contents = [] := by
  have halone : Alone expectAck (packetOf payload h₁ h₂) := next_packetOf hplain hh₁ hh₂
  have hfits : NeverOverfills expectAck recvBuf.capacity recvBuf.contents chunks := by
    rw [hempty]
    exact halone.neverOverfills hfit hchunks not_incomplete_packetOf
  obtain ⟨recvBuf', hfeed, hcontents⟩ := feed_recorder hcap (by rw [hempty]; rfl) hfits []
  rw [hempty, List.nil_append, List.nil_append, hchunks, halone.frames_eq] at hfeed
  rw [hempty, List.nil_append, hchunks, halone.frames_eq] at hcontents
  exact ⟨recvBuf', hfeed, hcontents⟩

/-- One call hands a packet that fills the contents to `handle_packet`, and nothing is left. -/
theorem processRequests_packetOf (hplain : Plain payload) (hh₁ : h₁ ≠ ascii '$')
    (hh₂ : h₂ ≠ ascii '$') {recvBuf : RingBuffer Byte} (hcap : recvBuf.capacity ≤ 2 ^ 31)
    (hcontents : recvBuf.contents = packetOf payload h₁ h₂) :
    (recvBuf.consume (payload.length + 4)).contents = [] ∧
      ∀ (σ : Type) (S : RequestHandler σ) (s : σ), processRequests S recvBuf s =
        (S.handlePacket (packetOf payload h₁ h₂) s).map fun s' =>
          (recvBuf.consume (payload.length + 4), s') := by
  have hsize : recvBuf.size = payload.length + 4 := by
    rw [← RingBuffer.length_contents, hcontents, length_packetOf]
  have hleft : (recvBuf.consume (payload.length + 4)).contents = [] := by
    rw [RingBuffer.contents_consume hcap (by omega), hcontents, List.drop_of_length_le]
    rw [length_packetOf]
  have hempty : recvBuf.empty ≠ true := by
    rw [Ne, recvBuf.empty_iff, hcontents]
    exact List.cons_ne_nil _ _
  have hlt := recvBuf.size_lt
  have hnotfull : (recvBuf.consume (payload.length + 4)).full ≠ true := by
    rw [Ne, RingBuffer.full_iff, ← RingBuffer.length_contents, hleft]
    change ¬0 + 1 = recvBuf.capacity
    omega
  refine ⟨hleft, fun σ S s => ?_⟩
  have hscan : scan (S.expectAck s) recvBuf recvBuf.size 0 [] =
      .packet (payload.length + 3) (packetOf payload h₁ h₂) := by
    have hbytes := @scan_eq (S.expectAck s) recvBuf recvBuf.size [] rfl
    rw [hcontents] at hbytes
    exact hbytes.trans (scanBytes_packetOf hplain hh₁ hh₂)
  rw [processRequests, processLoop, if_neg hempty, hscan]
  cases hs : S.handlePacket (packetOf payload h₁ h₂) s with
  | none => simp [hs]
  | some s' => simp [hs, hnotfull]

/-! ## Checksums -/

theorem extractChecksum_packetOf : extractChecksum (packetOf payload h₁ h₂) =
    characterHexValue h₂ + 16 * characterHexValue h₁ := by
  obtain ⟨hget₁, hget₂⟩ := getD_parts (ascii '$') h₁ h₂ payload
  rw [extractChecksum]
  exact congrArg₂ (fun a b => characterHexValue a + 16 * characterHexValue b) hget₂ hget₁

theorem extract_hexByte : ∀ b : Byte, characterHexValue (hexDigit (b &&& 0xf)) +
    (16 : Byte) * characterHexValue (hexDigit (b >>> 4)) = b := by
  decide +kernel

theorem frame_eq (payload : List Byte) : frame payload =
    packetOf payload (hexDigit (checksum payload >>> 4)) (hexDigit (checksum payload &&& 0xf)) :=
  rfl

theorem computeChecksum_frame (payload : List Byte) :
    computeChecksum (frame payload) = extractChecksum (frame payload) := by
  rw [frame_eq, extractChecksum_packetOf, extract_hexByte]
  exact computeChecksum_parts _ _ _ payload

/-! ## What is emitted -/

/-- A call of `send`.  A string goes up to the first zero. -/
inductive SendCall
  | string (msg : List Byte)
  | u64 (value : BitVec 64)
  | u32 (value : BitVec 32)
  | u8 (value : BitVec 8)

namespace SendCall

def run : SendCall → GdbM Unit
  | .string msg => send (msg.takeWhile (· ≠ 0))
  | .u64 value => sendNumber 8 value
  | .u32 value => sendNumber 4 (value.setWidth 64)
  | .u8 value => send (hexByte value)

def bytes : SendCall → List Byte
  | .string msg => msg.takeWhile (· ≠ 0)
  | .u64 value => (lowBytes 8 value).flatMap hexByte
  | .u32 value => (lowBytes 4 (value.setWidth 64)).flatMap hexByte
  | .u8 value => hexByte value

end SendCall

/-- The calls between `start_packet` and `end_packet`. -/
def emitPacket (calls : List SendCall) : GdbM Unit := do
  startPacket
  calls.forM SendCall.run
  endPacket

/-- `out` is in the send buffer behind what was there. -/
structure Buffered (s : GdbServer) (out : List Byte) (s' : GdbServer) : Prop where
  capacity : s'.sendBuf.capacity = 65536
  contents : s'.sendBuf.contents = s.sendBuf.contents ++ out
  sent : s'.sent = s.sent ++ out

/-- It is less than the buffer holds. -/
theorem Buffered.length_lt {s s' : GdbServer} {out : List Byte} (h : Buffered s out s') :
    s.sendBuf.size + out.length < 65536 := by
  have hlt := s'.sendBuf.size_lt
  rw [← RingBuffer.length_contents, h.contents, List.length_append, h.capacity,
    RingBuffer.length_contents] at hlt
  exact hlt

/-- When the code returns, it has sent `out` and added it to the checksum. -/
structure Puts {α : Type} (out : List Byte) (x : GdbM α) : Prop where
  ok : ∀ {s a s'}, x s = .ok a s' → s.sendBuf.capacity = 65536 →
    Buffered s out s' ∧ s'.runningChecksum = out.foldl (· + ·) s.runningChecksum

theorem Puts.bind {α γ : Type} {out out' : List Byte} {x : GdbM α} {f : α → GdbM γ}
    (hx : Puts out x) (hf : ∀ a, Puts out' (f a)) : Puts (out ++ out') (x >>= f) := by
  constructor
  intro s c s' h hcap
  obtain ⟨a, mid, hfirst, hrest⟩ := bind_ok h
  obtain ⟨hout₁, hsum₁⟩ := hx.ok hfirst hcap
  obtain ⟨hout₂, hsum₂⟩ := (hf a).ok hrest hout₁.capacity
  refine ⟨⟨hout₂.capacity, ?_, ?_⟩, ?_⟩
  · rw [hout₂.contents, hout₁.contents, List.append_assoc]
  · rw [hout₂.sent, hout₁.sent, List.append_assoc]
  · rw [hsum₂, hsum₁, List.foldl_append]

theorem puts_send (msg : List Byte) : Puts msg (send msg) := by
  constructor
  intro s _ s' h hcap
  have hcapacity : s.sendBuf.capacity ≤ 2 ^ 31 := by rw [hcap]; decide
  simp only [send, run_bind, run_get] at h
  cases hb : s.sendBuf.append msg with
  | none =>
      rw [hb] at h
      cases h
  | some b =>
      rw [hb] at h
      cases h
      obtain ⟨hcontents, hcap'⟩ := RingBuffer.contents_append hcapacity hb
      exact ⟨⟨hcap'.trans hcap, hcontents, rfl⟩, rfl⟩

theorem puts_nil : Puts [] (pure () : GdbM Unit) := by
  constructor
  intro s a s' h hcap
  cases h
  exact ⟨⟨hcap, (List.append_nil _).symm, (List.append_nil _).symm⟩, rfl⟩

theorem puts_forM {β : Type} {x : β → GdbM Unit} {out : β → List Byte} (bs : List β)
    (h : ∀ b, Puts (out b) (x b)) : Puts (bs.flatMap out) (bs.forM x) := by
  induction bs with
  | nil => exact puts_nil
  | cons b bs ih => exact (h b).bind fun _ => ih

theorem SendCall.puts_run (call : SendCall) : Puts call.bytes call.run := by
  cases call with
  | string msg => exact puts_send _
  | u64 value => exact puts_forM _ fun b => puts_send (hexByte b)
  | u32 value => exact puts_forM _ fun b => puts_send (hexByte b)
  | u8 value => exact puts_send _

/-- What `start_packet`, the code between and `end_packet` send. -/
theorem buffered_packet {body : GdbM Unit} {payload : List Byte} (hbody : Puts payload body)
    {s s' : GdbServer} (hcap : s.sendBuf.capacity = 65536)
    (h : (do startPacket; body; endPacket) s = .ok () s') : Buffered s (frame payload) s' := by
  obtain ⟨⟨⟩, s₁, hstart, hrest⟩ := bind_ok h
  obtain ⟨⟨⟩, s₂, hrun, hend⟩ := bind_ok hrest
  obtain ⟨⟨⟩, s₀, hdollar, hreset⟩ := bind_ok hstart
  obtain ⟨hout₀, -⟩ := (puts_send (text "$")).ok hdollar hcap
  cases hreset
  obtain ⟨hout₂, hsum₂⟩ := hbody.ok hrun hout₀.capacity
  have hsum : s₂.runningChecksum = checksum payload := hsum₂
  obtain ⟨⟨⟩, s₃, hclose, hack⟩ := bind_ok
    (show (send (ascii '#' :: hexByte s₂.runningChecksum) >>= fun _ =>
      modify fun s => { s with expectAck := true }) s₂ = .ok () s' from hend)
  obtain ⟨hout₃, -⟩ := (puts_send _).ok hclose hout₂.capacity
  cases hack
  refine ⟨hout₃.capacity, ?_, ?_⟩
  · change s₃.sendBuf.contents = _
    rw [hout₃.contents, hout₂.contents, hout₀.contents, hsum]
    simp [frame, text]
  · change s₃.sent = _
    rw [hout₃.sent, hout₂.sent, hout₀.sent, hsum]
    simp [frame, text]

/-- `send_packet` puts the same frame into the buffer. -/
theorem buffered_sendPacket {data : String} {s s' : GdbServer}
    (hcap : s.sendBuf.capacity = 65536) (h : sendPacket data s = .ok () s') :
    Buffered s (frame (text data)) s' := by
  have hall : ((do startPacket; send (text data); endPacket : GdbM Unit) >>= fun _ =>
      (modify fun s => { s with expectAck := true } : GdbM Unit)) s = .ok () s' := by
    simpa only [sendPacket, bind_assoc] using h
  obtain ⟨⟨⟩, s₁, hpacket, hack⟩ := bind_ok hall
  cases hack
  have hout := buffered_packet (puts_send (text data)) hcap hpacket
  exact ⟨hout.capacity, hout.contents, hout.sent⟩

/-- The bytes are one packet with this payload, to a peer that has received nothing else. -/
structure ReadByPeer (bytes payload : List Byte) : Prop where
  parts : ∃ h₁ h₂, bytes = packetOf payload h₁ h₂
  checksum : computeChecksum bytes = extractChecksum bytes
  framed : ∀ peer : RingBuffer Byte, peer.capacity = 0x180000 → peer.contents = [] →
    ∃ received done, peer.receive bytes = some received ∧ done.contents = [] ∧
      ∀ (σ : Type) (S : RequestHandler σ) (s : σ),
        processRequests S received s = (S.handlePacket bytes s).map fun s' => (done, s')

theorem ne_dollar_of_hexByte (b : Byte) :
    hexDigit (b >>> 4) ≠ ascii '$' ∧ hexDigit (b &&& 0xf) ≠ ascii '$' := by
  have hplain := (plain_hexByte b).1
  simp only [hexByte, List.mem_cons, List.not_mem_nil, or_false, not_or] at hplain
  exact ⟨Ne.symm hplain.1, Ne.symm hplain.2⟩

theorem readByPeer_frame {payload : List Byte} (hplain : Plain payload)
    (hfit : (frame payload).length < 0x180000) : ReadByPeer (frame payload) payload where
  parts := ⟨_, _, frame_eq payload⟩
  checksum := computeChecksum_frame payload
  framed := by
    intro peer hcap hempty
    have hcapacity : peer.capacity ≤ 2 ^ 31 := by rw [hcap]; decide
    have hsize : peer.size = 0 := by rw [← RingBuffer.length_contents, hempty]; rfl
    have hroom : peer.size + (frame payload).length < peer.capacity := by omega
    obtain ⟨received, hreceive, hcontents, hcap'⟩ := RingBuffer.receive_eq hcapacity hroom
    rw [hempty, List.nil_append] at hcontents
    obtain ⟨hne₁, hne₂⟩ := ne_dollar_of_hexByte (Gdb.checksum payload)
    obtain ⟨hleft, hcall⟩ := processRequests_packetOf hplain hne₁ hne₂
      (show received.capacity ≤ 2 ^ 31 from hcap' ▸ hcapacity) hcontents
    exact ⟨received, _, hreceive, hleft, hcall⟩

/-- **What is sent as a packet is read as that packet.**  Whatever the calls of `send` between
`start_packet` and `end_packet`, a peer finds one packet with their output as its payload and
the right checksum, and the same holds for `send_packet`. -/
theorem emitted_frames_are_packets {s s' : GdbServer} (hcap : s.sendBuf.capacity = 65536) :
    (∀ calls : List SendCall, Plain (calls.flatMap SendCall.bytes) →
      emitPacket calls s = .ok () s' →
        ∃ bytes, s'.sendBuf.contents = s.sendBuf.contents ++ bytes ∧
          ReadByPeer bytes (calls.flatMap SendCall.bytes)) ∧
    ∀ data : String, Plain (text data) → sendPacket data s = .ok () s' →
      ∃ bytes, s'.sendBuf.contents = s.sendBuf.contents ++ bytes ∧
        ReadByPeer bytes (text data) := by
  have hread {payload : List Byte} (hplain : Plain payload)
      (hout : Buffered s (frame payload) s') :
      ∃ bytes, s'.sendBuf.contents = s.sendBuf.contents ++ bytes ∧ ReadByPeer bytes payload := by
    -- The frame was in the send buffer, which is smaller than the buffer of the peer.
    have hlt := hout.length_lt
    exact ⟨_, hout.contents, readByPeer_frame hplain (by omega)⟩
  constructor
  · intro calls hplain hrun
    exact hread hplain (buffered_packet (puts_forM calls SendCall.puts_run) hcap hrun)
  · intro data hplain hrun
    exact hread hplain (buffered_sendPacket hcap hrun)

/-- `T05` and a register, sent by a server whose buffer is empty. -/
theorem stop_reply_read_by_peer : ∃ s' bytes,
    emitPacket [.string (text "T05pc:"), .u32 0x80000000, .string (text ";")] haltedServer =
      .ok () s' ∧ s'.sendBuf.contents = haltedServer.sendBuf.contents ++ bytes ∧
      ReadByPeer bytes (text "T05pc:00000080;") := by
  have hruns : ∃ s', emitPacket [.string (text "T05pc:"), .u32 0x80000000, .string (text ";")]
      haltedServer = .ok () s' := by
    have hok : Succeeds (emitPacket [.string (text "T05pc:"), .u32 0x80000000,
      .string (text ";")] haltedServer) = true := by decide +kernel
    obtain ⟨_, s', hrun⟩ := Succeeds.exists_ok hok
    exact ⟨s', hrun⟩
  obtain ⟨s', hrun⟩ := hruns
  have hcap : haltedServer.sendBuf.capacity = 0x10000 := rfl
  obtain ⟨bytes, hcontents, hpeer⟩ := (emitted_frames_are_packets hcap).1 _ (by decide +kernel) hrun
  exact ⟨s', bytes, hrun, hcontents, hpeer⟩

end SpikeSim.Gdb
