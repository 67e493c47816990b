/-
# Writes of binary data

The data of an `X` packet is sent as it is, except that `}` in front of a byte stands for the
byte with bit 5 changed.  `process_requests` looks for `#` and `$` and knows nothing of this,
and `handle_memory_binary_write` takes as many bytes as the packet declares and knows nothing
of the end of the packet.  The two agree as long as the data on the wire holds no `#` and no
`$`: the sender has to escape these two and `}`, and it may escape other bytes as well, but not
3 and 4, which become `#` and `$` in that way.
-/

import SpikeSim.Gdb.Delivery
import SpikeSim.Gdb.HexCodec

namespace SpikeSim.Gdb

variable {escapable : Byte → Prop} {d e : List Byte}

/-! ## Escaped data -/

/-- The bytes `e` stand for `d`.  Which bytes are escaped is up to the sender, but for the
three that have to be. -/
inductive Escapes (escapable : Byte → Prop) : List Byte → List Byte → Prop
  | nil : Escapes escapable [] []
  | plain {d e : List Byte} (c : Byte) : c ≠ ascii '#' → c ≠ ascii '$' → c ≠ ascii '}' →
      Escapes escapable d e → Escapes escapable (c :: d) (c :: e)
  | escaped {d e : List Byte} (c : Byte) : escapable c → Escapes escapable d e →
      Escapes escapable (c :: d) (ascii '}' :: (c ^^^ 0x20) :: e)

/-- The bytes that remain neither `#` nor `$` when they are escaped. -/
def Escapable (c : Byte) : Prop := c ≠ 3 ∧ c ≠ 4

theorem unescape_plain {c : Byte} (hc : c ≠ ascii '}') (n : Nat) (iter : List Byte) :
    unescape (n + 1) (c :: iter) = (do
      let (data, iter) ← unescape n iter
      return (c :: data, iter)) := by
  rw [unescape.eq_def]
  exact if_neg hc

theorem unescape_escaped (n : Nat) (c : Byte) (iter : List Byte) :
    unescape (n + 1) (ascii '}' :: c :: iter) = (do
      let (data, iter) ← unescape n iter
      return ((c ^^^ 0x20) :: data, iter)) := by
  rw [unescape.eq_def]
  exact if_pos rfl

/-- **Unescaping takes as many bytes as were escaped.** -/
theorem unescape_of_escapes (h : Escapes escapable d e) (rest : List Byte) :
    unescape d.length (e ++ rest) = .ok (d, rest) := by
  induction h with
  | nil => rfl
  | plain c _ _ hbrace _ ih =>
      rw [List.length_cons, List.cons_append, unescape_plain hbrace, ih]
      rfl
  | escaped c _ _ ih =>
      have hback : c ^^^ 0x20 ^^^ 0x20 = c := by rw [BitVec.xor_assoc]; simp
      rw [List.length_cons, List.cons_append, List.cons_append, unescape_escaped, ih, hback]
      rfl

theorem escaped_ne : ∀ c : Byte, c ≠ 3 → c ≠ 4 →
    c ^^^ 0x20 ≠ ascii '$' ∧ c ^^^ 0x20 ≠ ascii '#' := by
  decide +kernel

theorem plain_cons {b : Byte} {p : List Byte} (hdollar : b ≠ ascii '$') (hhash : b ≠ ascii '#')
    (hp : Plain p) : Plain (b :: p) := by
  constructor
  · rw [List.mem_cons, not_or]
    exact ⟨hdollar.symm, hp.1⟩
  · rw [List.mem_cons, not_or]
    exact ⟨hhash.symm, hp.2⟩

theorem plain_of_escapes (h : Escapes Escapable d e) : Plain e := by
  induction h with
  | nil => exact ⟨List.not_mem_nil, List.not_mem_nil⟩
  | plain c hhash hdollar _ _ ih => exact plain_cons hdollar hhash ih
  | escaped c hc _ ih =>
      obtain ⟨hdollar, hhash⟩ := escaped_ne c hc.1 hc.2
      exact plain_cons (by decide) (by decide) (plain_cons hdollar hhash ih)

/-! ## The packet -/

/-- `Xaddr,length:` and the data. -/
def writePayload (address length : List (BitVec 4 × Bool)) (e : List Byte) : List Byte :=
  ascii 'X' :: (numeral address ++ ascii ',' :: (numeral length ++ ascii ':' :: e))

theorem plain_digitChar : ∀ d upper,
    digitChar d upper ≠ ascii '$' ∧ digitChar d upper ≠ ascii '#' := by
  decide +kernel

theorem plain_numeral (ds : List (BitVec 4 × Bool)) : Plain (numeral ds) := by
  induction ds with
  | nil => exact ⟨List.not_mem_nil, List.not_mem_nil⟩
  | cons d ds ih =>
      obtain ⟨hdollar, hhash⟩ := plain_digitChar d.1 d.2
      exact plain_cons hdollar hhash ih

theorem plain_writePayload {address length : List (BitVec 4 × Bool)}
    (h : Escapes Escapable d e) : Plain (writePayload address length e) := by
  have hdata : Plain (ascii ':' :: e) := plain_cons (by decide) (by decide) (plain_of_escapes h)
  have hlength := (plain_numeral length).append hdata
  have hcomma : Plain (ascii ',' :: (numeral length ++ ascii ':' :: e)) :=
    plain_cons (by decide) (by decide) hlength
  exact plain_cons (by decide) (by decide) ((plain_numeral address).append hcomma)

/-- The two operations of a write were queued, and nothing else has changed. -/
def QueuesWrite (address : Reg) (d : List Byte) (s s' : GdbServer) : Prop :=
  s' = { s with
    operationQueue := s.operationQueue ++
      [(newCollectTranslationInfo address, 0),
        (newMemoryWrite address (BitVec.ofNat 32 d.length) d, 0)] }

/-- What the handler does with the packet. -/
theorem run_handleMemoryBinaryWrite {address length : List (BitVec 4 × Bool)} {h₁ h₂ : Byte}
    (haddress : address.length ≤ 16) (hlength : length.length ≤ 16)
    (hcount : numeralValue length = d.length) (hd : d ≠ []) (h : Escapes escapable d e)
    (s : GdbServer) :
    ∃ s', handleMemoryBinaryWrite (packetOf (writePayload address length e) h₁ h₂) s = .ok () s' ∧
      QueuesWrite (BitVec.ofNat 64 (numeralValue address)) d s s' := by
  let trailer : List Byte := [ascii '#', h₁, h₂]
  have hbytes : (packetOf (writePayload address length e) h₁ h₂).drop 2 =
      numeral address ++ ascii ',' :: (numeral length ++ ascii ':' :: (e ++ trailer)) := by
    simp [packetOf, writePayload, trailer]
  have hafter : NoDigit (ascii ',' :: (numeral length ++ ascii ':' :: (e ++ trailer))) := by
    intro c hc
    cases hc
    decide +kernel
  have hafter' : NoDigit (ascii ':' :: (e ++ trailer)) := by
    intro c hc
    cases hc
    decide +kernel
  obtain ⟨haddr, hcomma⟩ := consumeHexNumber_numeral hafter haddress
  obtain ⟨hlen, hcolon⟩ := consumeHexNumber_numeral hafter' hlength
  rcases hnum₁ : consumeHexNumber (numeral address ++ ascii ',' :: (numeral length ++
    ascii ':' :: (e ++ trailer))) with ⟨addr, iter₁⟩
  rcases hnum₂ : consumeHexNumber (numeral length ++ ascii ':' :: (e ++ trailer)) with
    ⟨count, iter₂⟩
  rw [hnum₁] at haddr hcomma
  rw [hnum₂] at hlen hcolon
  dsimp only at haddr hcomma hlen hcolon
  subst hcomma hcolon
  have hcount' : count.toNat = d.length := hlen.trans hcount
  have hne : count ≠ 0 := by
    intro hzero
    rw [hzero] at hcount'
    exact hd (List.length_eq_zero_iff.mp hcount'.symm)
  have haddr' : addr = BitVec.ofNat 64 (numeralValue address) := by
    rw [← haddr, BitVec.ofNat_toNat, BitVec.setWidth_eq]
  have hwidth : count.setWidth 32 = BitVec.ofNat 32 d.length := by
    rw [← hcount']
    exact (BitVec.ofNat_toNat 32 count).symm
  have hdata := unescape_of_escapes h trailer
  have hpeek (c : Byte) (iter : List Byte) : peek (c :: iter) = pure c := rfl
  refine ⟨_, ?_, rfl⟩
  rw [handleMemoryBinaryWrite, hbytes, hnum₁]
  simp only [List.drop_succ_cons, List.drop_zero, hnum₂, hcount', hdata, hwidth, haddr', trailer,
    hpeek, pure_bind, ne_eq, not_true_eq_false, if_false, if_neg hne]
  rw [addOperation, addOperation, run_bind, run_modify]
  simp only [run_modify, List.append_assoc, List.singleton_append]

/-! ## Delivery -/

/-- The two characters of a checksum are hex digits and show the sum of the payload. -/
def ShowsChecksum (payload : List Byte) (h₁ h₂ : Byte) : Prop :=
  IsHexDigit h₁ ∧ IsHexDigit h₂ ∧
    16 * (characterHexValue h₁).toNat + (characterHexValue h₂).toNat =
      (payload.map BitVec.toNat).sum % 256

theorem ShowsChecksum.computeChecksum_eq {payload : List Byte} {h₁ h₂ : Byte}
    (h : ShowsChecksum payload h₁ h₂) :
    computeChecksum (packetOf payload h₁ h₂) = extractChecksum (packetOf payload h₁ h₂) := by
  obtain ⟨hh₁, hh₂, hsum⟩ := h
  rw [extractChecksum_packetOf]
  apply BitVec.eq_of_toNat_eq
  rw [toNat_extract hh₁ hh₂, hsum, ← toNat_checksum]
  exact congrArg BitVec.toNat (computeChecksum_parts (ascii '$') h₁ h₂ payload)

theorem hexDigit_ne_dollar : ∀ c : Byte, IsHexDigit c → c ≠ ascii '$' := by decide +kernel

/-- An `X` packet for the data `d` as a debugger may send it. -/
structure WriteRequest (escapable : Byte → Prop) (address length : List (BitVec 4 × Bool))
    (d e : List Byte) (h₁ h₂ : Byte) : Prop where
  address_length : address.length ≤ 16
  length_length : length.length ≤ 16
  count : numeralValue length = d.length
  data : d ≠ []
  escapes : Escapes escapable d e
  checksum : ShowsChecksum (writePayload address length e) h₁ h₂

/-- **A write is decoded as it was meant.**  However the packet arrives, it is found as one
request and its checksum is right, and the handler queues one write of the data behind the
operation for its translation. -/
theorem binary_write_decoded (expectAck : Bool) {address length : List (BitVec 4 × Bool)}
    {h₁ h₂ : Byte} (hrequest : WriteRequest Escapable address length d e h₁ h₂)
    {recvBuf : RingBuffer Byte} (hcap : recvBuf.capacity = 0x180000)
    (hempty : recvBuf.contents = [])
    (hfit : (packetOf (writePayload address length e) h₁ h₂).length < 0x180000)
    {chunks : List (List Byte)}
    (hchunks : chunks.flatten = packetOf (writePayload address length e) h₁ h₂) :
    (∃ recvBuf', feed (recorder expectAck) chunks recvBuf [] =
        some (recvBuf', [.packet (packetOf (writePayload address length e) h₁ h₂)]) ∧
      recvBuf'.contents = []) ∧
    handlePacket (packetOf (writePayload address length e) h₁ h₂) = (do
      send (text "+")
      handleMemoryBinaryWrite (packetOf (writePayload address length e) h₁ h₂)) ∧
    ∀ s, ∃ s',
      handleMemoryBinaryWrite (packetOf (writePayload address length e) h₁ h₂) s = .ok () s' ∧
        QueuesWrite (BitVec.ofNat 64 (numeralValue address)) d s s' := by
  have hplain : Plain (writePayload address length e) := plain_writePayload hrequest.escapes
  have hne₁ := hexDigit_ne_dollar h₁ hrequest.checksum.1
  have hne₂ := hexDigit_ne_dollar h₂ hrequest.checksum.2.1
  refine ⟨?_, ?_, ?_⟩
  · exact feed_packetOf hplain hne₁ hne₂ (by rw [hcap]; decide) hempty (by rw [hcap]; exact hfit)
      hchunks
  · rw [handlePacket, if_neg (not_not.mpr hrequest.checksum.computeChecksum_eq)]
    rfl
  · exact run_handleMemoryBinaryWrite hrequest.address_length hrequest.length_length
      hrequest.count hrequest.data hrequest.escapes

/-- The bytes `#` and 0 are written to 0x80, in two chunks. -/
theorem binary_write_decoded_hash :
    (∃ recvBuf', feed (recorder true) [text "$X80,2:\x7d", [3, 0] ++ text "#d8"] emptyRecvBuf [] =
        some (recvBuf', [.packet (text "$X80,2:\x7d" ++ [3, 0] ++ text "#d8")]) ∧
      recvBuf'.contents = []) ∧
    ∀ s, ∃ s', handleMemoryBinaryWrite (text "$X80,2:\x7d" ++ [3, 0] ++ text "#d8") s = .ok () s' ∧
      QueuesWrite 0x80 [ascii '#', 0] s s' := by
  have hescapes : Escapes Escapable [ascii '#', 0] [ascii '}', 3, 0] :=
    .escaped _ (by unfold Escapable; decide) (.plain _ (by decide) (by decide) (by decide) .nil)
  have hrequest : WriteRequest Escapable [(8, false), (0, false)] [(2, false)] [ascii '#', 0]
      [ascii '}', 3, 0] (ascii 'd') (ascii '8') :=
    ⟨by decide, by decide, rfl, by decide, hescapes, by unfold ShowsChecksum; decide +kernel⟩
  have hchunks : [text "$X80,2:\x7d", [3, 0] ++ text "#d8"].flatten =
      packetOf (writePayload [(8, false), (0, false)] [(2, false)] [ascii '}', 3, 0])
        (ascii 'd') (ascii '8') := by decide +kernel
  obtain ⟨hfeed, -, hqueue⟩ := binary_write_decoded true hrequest
    (show emptyRecvBuf.capacity = 0x180000 from rfl) rfl (by decide +kernel) hchunks
  exact ⟨hfeed, hqueue⟩

/-- The byte 3, escaped, ends the packet too early. -/
theorem escaped_three_splits_packet :
    ¬∀ (address length : List (BitVec 4 × Bool)) (d e : List Byte) (h₁ h₂ : Byte)
      (chunks : List (List Byte)), WriteRequest (fun _ => True) address length d e h₁ h₂ →
      (packetOf (writePayload address length e) h₁ h₂).length < 0x180000 →
      chunks.flatten = packetOf (writePayload address length e) h₁ h₂ →
        ∃ recvBuf', feed (recorder true) chunks emptyRecvBuf [] =
          some (recvBuf', [.packet (packetOf (writePayload address length e) h₁ h₂)]) := by
  intro h
  have hrequest : WriteRequest (fun _ => True) [(0, false)] [(1, false)] [3]
      [ascii '}', ascii '#'] (ascii 'b') (ascii 'f') :=
    ⟨by decide, by decide, rfl, by decide, .escaped 3 trivial .nil,
      by unfold ShowsChecksum; decide +kernel⟩
  obtain ⟨recvBuf', hfeed⟩ := h _ _ _ _ _ _ [text "$X0,1:\x7d##bf"] hrequest (by decide +kernel)
    (by decide +kernel)
  have hnext : (framer true).next (text "$X0,1:\x7d##bf") =
      some (.packet (text "$X0,1:\x7d##b"), 10) := by decide +kernel
  have hfits : NeverOverfills true emptyRecvBuf.capacity emptyRecvBuf.contents
      [text "$X0,1:\x7d##bf"] := neverOverfills_of_length (by decide)
  obtain ⟨recvBuf'', hfeed', -⟩ := feed_recorder (by decide) rfl hfits []
  have hstream : emptyRecvBuf.contents ++ [text "$X0,1:\x7d##bf"].flatten = text "$X0,1:\x7d##bf" := by
    decide +kernel
  rw [hfeed', hstream, Framer.frames_of_some hnext, List.nil_append] at hfeed
  have hfirst := congrArg List.head? (congrArg Prod.snd (Option.some.inj hfeed))
  have hbytes : text "$X0,1:\x7d##b" = packetOf (writePayload [(0, false)] [(1, false)]
      [ascii '}', ascii '#']) (ascii 'b') (ascii 'f') := Request.packet.inj (Option.some.inj hfirst)
  exact absurd (congrArg List.length hbytes) (by decide +kernel)

end SpikeSim.Gdb
