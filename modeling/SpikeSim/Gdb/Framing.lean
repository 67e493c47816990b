/-
# Cutting the bytes from gdb into requests

`process_requests` scans the receive buffer from its front: an acknowledgement or an
interrupt character is taken off by itself, a packet once it is complete, and the bytes
before a second `$` are dropped.  If the scan runs to the end of the buffer it starts
over when more bytes have arrived.

The scan decides on a request when it sees its last byte (for dropped bytes, the byte
after them), so the requests are those of a `Framer`, and they do not depend on how the
stream arrives.  `processRequests` takes what a request does to the rest of the server as
a parameter.
-/

import SpikeSim.Gdb.RingBuffer
import SpikeSim.Lib.Framer

namespace SpikeSim.Gdb

abbrev Byte := BitVec 8

instance lawfulBEqByte : LawfulBEq Byte := instLawfulBEq

/-- The byte of a character. -/
def ascii (c : Char) : Byte := BitVec.ofNat 8 c.toNat

/-- What `process_requests` finds in the stream. -/
inductive Request
  | ack
  | interrupt
  | packet (bytes : List Byte)
  | malformed (bytes : List Byte)
  deriving DecidableEq, Repr

/-- The bytes of a request. -/
def Request.bytes : Request → List Byte
  | .ack => [ascii '+']
  | .interrupt => [3]
  | .packet bytes => bytes
  | .malformed bytes => bytes

/-! ## The scan -/

/-- How the scan ends.  `i` is the index of the last byte it saw. -/
inductive Scan
  | ack
  | interrupt
  | malformed (i : Nat) (packet : List Byte)
  | packet (i : Nat) (packet : List Byte)
  | wait
  deriving DecidableEq, Repr

/-- `packet.size() >= 4 && packet[packet.size()-3] == '#'`. -/
def complete (packet : List Byte) : Bool :=
  4 ≤ packet.length && packet[packet.length - 3]? = some (ascii '#')

/-- The inner loop of `process_requests`, `n` bytes before the end of the buffer. -/
def scan (expectAck : Bool) (recvBuf : RingBuffer Byte) : (n i : Nat) → List Byte → Scan
  | 0, _, _ => .wait
  | n + 1, i, packet =>
      let b := recvBuf.get i
      if packet.isEmpty && expectAck && b = ascii '+' then .ack
      else if packet.isEmpty && b = 3 then .interrupt
      else if b = ascii '$' && !packet.isEmpty then .malformed i packet
      else if complete (packet ++ [b]) then .packet i (packet ++ [b])
      else scan expectAck recvBuf n (i + 1) (packet ++ [b])

/-- What the requests do to the rest of the server. -/
structure RequestHandler (σ : Type) where
  expectAck : σ → Bool
  handleInterrupt : σ → Option σ
  handlePacket : List Byte → σ → Option σ
  /-- A malformed packet is printed. -/
  dropped : List Byte → σ → σ
  acknowledged : σ → σ

section Process

variable {σ : Type} (S : RequestHandler σ)

/-- The outer loop of `process_requests`.  It goes on only while no byte was put into
`packet`. -/
def processLoop (recvBuf : RingBuffer Byte) (s : σ) : Option (RingBuffer Byte × σ) :=
  if recvBuf.empty then some (recvBuf, s)
  else
    match scan (S.expectAck s) recvBuf recvBuf.size 0 [] with
    | .ack => processLoop (recvBuf.consume 1) (S.acknowledged s)
    | .interrupt => do processLoop (recvBuf.consume 1) (← S.handleInterrupt s)
    | .malformed i packet => some (recvBuf.consume i, S.dropped packet s)
    | .packet i packet => do return (recvBuf.consume (i + 1), ← S.handlePacket packet s)
    | .wait => some (recvBuf, s)
termination_by recvBuf.size
decreasing_by
  all_goals
    have := recvBuf.size_consume_one (by simpa using ‹¬recvBuf.empty = true›)
    omega

def processRequests (recvBuf : RingBuffer Byte) (s : σ) : Option (RingBuffer Byte × σ) := do
  let (recvBuf, s) ← processLoop S recvBuf s
  if recvBuf.full then none else some (recvBuf, s)

/-- `process_requests`, again and again until it takes nothing from the buffer. -/
def settle (recvBuf : RingBuffer Byte) (s : σ) : Option (RingBuffer Byte × σ) := do
  let (recvBuf', s') ← processRequests S recvBuf s
  if recvBuf'.size < recvBuf.size then settle recvBuf' s' else some (recvBuf', s')
termination_by recvBuf.size

/-- The stream arrives in chunks. -/
def feed : List (List Byte) → RingBuffer Byte → σ → Option (RingBuffer Byte × σ)
  | [], recvBuf, s => some (recvBuf, s)
  | chunk :: chunks, recvBuf, s => do
      let (recvBuf, s) ← settle S (← recvBuf.receive chunk) s
      feed chunks recvBuf s

end Process

/-! ## The scan of a list -/

/-- The scan of the bytes `s`, after those of `packet`. -/
def scanBytes (expectAck : Bool) : List Byte → List Byte → Scan
  | [], _ => .wait
  | b :: s, packet =>
      if packet.isEmpty && expectAck && b = ascii '+' then .ack
      else if packet.isEmpty && b = 3 then .interrupt
      else if b = ascii '$' && !packet.isEmpty then .malformed packet.length packet
      else if complete (packet ++ [b]) then .packet packet.length (packet ++ [b])
      else scanBytes expectAck s (packet ++ [b])

variable {expectAck : Bool}

/-- The scan of the buffer is that of its contents. -/
theorem scan_eq (recvBuf : RingBuffer Byte) {n : Nat} (packet : List Byte)
    (hn : n + packet.length = recvBuf.size) :
    scan expectAck recvBuf n packet.length packet =
      scanBytes expectAck (recvBuf.contents.drop packet.length) packet := by
  induction n generalizing packet with
  | zero =>
      rw [List.drop_of_length_le (by simp; omega)]
      rfl
  | succ n ih =>
      have hlt : packet.length < recvBuf.contents.length := by simp; omega
      have hget : recvBuf.contents[packet.length] = recvBuf.get packet.length := by
        simp [RingBuffer.contents]
      have ih := ih (packet ++ [recvBuf.get packet.length]) (by simp; omega)
      rw [List.length_append, List.length_singleton] at ih
      rw [List.drop_eq_getElem_cons hlt, hget, scan, scanBytes, ih]

/-- What the scan found lies in the bytes it saw. -/
theorem scanBytes_spec (expectAck : Bool) (s packet : List Byte) :
    match scanBytes expectAck s packet with
    | .ack => packet = [] ∧ s.take 1 = [ascii '+']
    | .interrupt => packet = [] ∧ s.take 1 = [3]
    | .malformed i p => 0 < i ∧ i < packet.length + s.length ∧ p = (packet ++ s).take i
    | .packet i p => i < packet.length + s.length ∧ p = (packet ++ s).take (i + 1)
    | .wait => True := by
  induction s generalizing packet with
  | nil => simp [scanBytes]
  | cons b s ih =>
      rw [scanBytes]
      split_ifs with h₁ h₂ h₃ h₄
      · simp_all
      · simp_all
      · simp_all [List.length_pos_iff]
      · simp [List.take_append]
      · have ih := ih (packet ++ [b])
        simp only [List.append_assoc, List.singleton_append, List.length_append,
          List.length_singleton] at ih
        split at ih <;> simp_all <;> omega

/-- Bytes that arrive later do not change what the scan found. -/
theorem scanBytes_append {s packet : List Byte} (t : List Byte)
    (h : scanBytes expectAck s packet ≠ .wait) :
    scanBytes expectAck (s ++ t) packet = scanBytes expectAck s packet := by
  induction s generalizing packet with
  | nil => exact absurd rfl h
  | cons b s ih =>
      rw [List.cons_append, scanBytes, scanBytes]
      rw [scanBytes] at h
      split_ifs at h ⊢ with h₁ h₂ h₃ h₄
      · rfl
      · rfl
      · rfl
      · rfl
      · exact ih h

/-- The request that a scan found, and how many bytes it takes. -/
def Scan.request : Scan → Option (Request × Nat)
  | .ack => some (.ack, 1)
  | .interrupt => some (.interrupt, 1)
  | .malformed i bytes => some (.malformed bytes, i)
  | .packet i bytes => some (.packet bytes, i + 1)
  | .wait => none

theorem Scan.request_eq_none {r : Scan} : r.request = none ↔ r = .wait := by
  cases r <;> simp [request]

/-- What a request takes are its bytes, at least one of them. -/
theorem request_spec {s : List Byte} {r : Request} {k : Nat}
    (h : (scanBytes expectAck s []).request = some (r, k)) :
    0 < k ∧ k ≤ s.length ∧ r.bytes = s.take k := by
  have hspec := scanBytes_spec expectAck s []
  have hone {b : Byte} (h : s.take 1 = [b]) : 1 ≤ s.length := by
    have := congrArg List.length h
    simp at this
    omega
  cases hscan : scanBytes expectAck s [] with
  | wait => simp [hscan, Scan.request] at h
  | ack =>
      rw [hscan] at h hspec
      obtain ⟨rfl, rfl⟩ : .ack = r ∧ 1 = k := by simpa [Scan.request] using h
      exact ⟨Nat.one_pos, hone hspec.2, hspec.2.symm⟩
  | interrupt =>
      rw [hscan] at h hspec
      obtain ⟨rfl, rfl⟩ : .interrupt = r ∧ 1 = k := by simpa [Scan.request] using h
      exact ⟨Nat.one_pos, hone hspec.2, hspec.2.symm⟩
  | malformed i p =>
      rw [hscan] at h hspec
      obtain ⟨rfl, rfl⟩ : .malformed p = r ∧ i = k := by simpa [Scan.request] using h
      obtain ⟨hpos, hlt, hp⟩ := hspec
      exact ⟨hpos, by simp at hlt; omega, hp⟩
  | packet i p =>
      rw [hscan] at h hspec
      obtain ⟨rfl, rfl⟩ : .packet p = r ∧ i + 1 = k := by simpa [Scan.request] using h
      obtain ⟨hlt, hp⟩ := hspec
      exact ⟨i.succ_pos, by simp at hlt; omega, hp⟩

/-- The requests in a stream. -/
def framer (expectAck : Bool) : Framer Byte Request where
  next s := (scanBytes expectAck s []).request
  pos h := (request_spec h).1
  le h := (request_spec h).2.1
  append {s} _ _ t h := by
    have hwait : scanBytes expectAck s [] ≠ .wait := by
      intro hw
      simp [hw, Scan.request] at h
    rw [scanBytes_append t hwait]
    exact h

/-! ## Incomplete packets -/

/-- The stream starts with a packet of which some bytes are still to come. -/
structure Incomplete (expectAck : Bool) (s : List Byte) : Prop where
  not_interrupt : s.head? ≠ some 3
  not_ack : expectAck = true → s.head? ≠ some (ascii '+')
  not_malformed : ascii '$' ∉ s.tail
  not_complete : ∀ i, 0 < i → i + 2 < s.length → s[i]? ≠ some (ascii '#')

theorem scanBytes_eq_wait {s packet : List Byte} (h : scanBytes expectAck s packet = .wait) :
    (packet = [] → s.head? ≠ some 3) ∧
      (packet = [] → expectAck = true → s.head? ≠ some (ascii '+')) ∧
      (∀ i, 0 < i → packet.length ≤ i → (packet ++ s)[i]? ≠ some (ascii '$')) ∧
      ∀ i, 0 < i → packet.length ≤ i + 2 → i + 2 < (packet ++ s).length →
        (packet ++ s)[i]? ≠ some (ascii '#') := by
  induction s generalizing packet with
  | nil =>
      refine ⟨by simp, by simp, fun i _ hi => ?_, fun i _ hi hlt => ?_⟩
      · rw [List.append_nil, List.getElem?_eq_none hi]
        simp
      · rw [List.append_nil] at hlt
        omega
  | cons b s ih =>
      rw [scanBytes] at h
      split_ifs at h with h₁ h₂ h₃ h₄
      obtain ⟨-, -, ihm, ihc⟩ := ih h
      simp only [List.append_assoc, List.singleton_append, List.length_append,
        List.length_singleton] at ihm ihc
      refine ⟨?_, ?_, fun i hpos hi => ?_, fun i hpos hi hlt => ?_⟩
      · rintro rfl
        simpa using h₂
      · rintro rfl hack
        simpa [hack] using h₁
      · rcases Nat.eq_or_lt_of_le hi with rfl | hlt
        · have hne : b ≠ ascii '$' := by
            simp only [Bool.and_eq_true, decide_eq_true_eq, not_and] at h₃
            intro hb
            exact absurd hpos (by simpa using h₃ hb)
          simpa using hne
        · exact ihm i hpos hlt
      · rcases Nat.eq_or_lt_of_le hi with heq | hlt'
        -- The byte three places before the end of the packet was not `#`.
        · have hi' : packet.length + 1 - 3 = i := by omega
          have hlen : 4 ≤ packet.length + 1 := by omega
          simp only [complete, List.length_append, List.length_singleton, hi', hlen,
            decide_true, Bool.true_and, decide_eq_true_eq] at h₄
          rw [List.getElem?_append_left (by omega)] at h₄ ⊢
          exact h₄
        · apply ihc i hpos hlt'
          simp only [List.length_append] at hlt
          exact hlt

/-- What is left of a stream is incomplete. -/
theorem incomplete_of_next_eq_none {s : List Byte} (h : (framer expectAck).next s = none) :
    Incomplete expectAck s := by
  obtain ⟨h₁, h₂, h₃, h₄⟩ := scanBytes_eq_wait (Scan.request_eq_none.mp h)
  refine ⟨h₁ rfl, h₂ rfl, fun hmem => ?_, fun i hpos hlt => h₄ i hpos (by simp) hlt⟩
  obtain ⟨i, hi⟩ := List.mem_iff_getElem?.mp hmem
  rw [List.getElem?_tail] at hi
  exact h₃ (i + 1) i.succ_pos (by simp) hi

/-- The buffer takes every chunk, and it is not full of an incomplete packet. -/
def NeverOverfills (expectAck : Bool) (capacity : Nat) : List Byte → List (List Byte) → Prop
  | _, [] => True
  | unread, chunk :: chunks =>
      (unread ++ chunk).length < capacity ∧
        ((unread ++ chunk).length + 1 = capacity → ¬Incomplete expectAck (unread ++ chunk)) ∧
        NeverOverfills expectAck capacity ((framer expectAck).frames (unread ++ chunk)).2 chunks

/-! ## Chunks -/

/-- A server that records the requests. -/
def recorder (expectAck : Bool) : RequestHandler (List Request) where
  expectAck _ := expectAck
  handleInterrupt s := some (s ++ [.interrupt])
  handlePacket packet s := some (s ++ [.packet packet])
  dropped packet s := s ++ [.malformed packet]
  acknowledged s := s ++ [.ack]

/-- Some requests were taken off the front of the buffer. -/
structure Takes (expectAck : Bool) (b b' : RingBuffer Byte) (taken : List Request) : Prop where
  capacity_eq : b'.capacity = b.capacity
  size_le : b'.size ≤ b.size
  frames_eq : (framer expectAck).frames b.contents =
    (taken ++ ((framer expectAck).frames b'.contents).1,
      ((framer expectAck).frames b'.contents).2)

namespace Takes

variable {b b' b'' : RingBuffer Byte} {taken taken' : List Request}

theorem refl (b : RingBuffer Byte) : Takes expectAck b b [] := ⟨rfl, le_rfl, rfl⟩

theorem trans (h : Takes expectAck b b' taken) (h' : Takes expectAck b' b'' taken') :
    Takes expectAck b b'' (taken ++ taken') := by
  refine ⟨h'.capacity_eq.trans h.capacity_eq, h'.size_le.trans h.size_le, ?_⟩
  rw [h.frames_eq, h'.frames_eq, List.append_assoc]

/-- The first request of the contents is consumed. -/
theorem consume {r : Request} {k : Nat} (hcap : b.capacity ≤ 2 ^ 31)
    (hnext : (framer expectAck).next b.contents = some (r, k)) :
    Takes expectAck b (b.consume k) [r] ∧ (b.consume k).size < b.size := by
  have hle : k ≤ b.size := by simpa using (framer expectAck).le hnext
  have hpos := (framer expectAck).pos hnext
  have hcontents := RingBuffer.contents_consume hcap hle
  have hsize : (b.consume k).size = b.size - k := by
    rw [← RingBuffer.length_contents, hcontents]
    simp
  refine ⟨⟨rfl, by omega, ?_⟩, by omega⟩
  rw [Framer.frames_of_some hnext, hcontents]
  rfl

end Takes

/-- One call takes requests off the front, or finds none. -/
theorem processLoop_recorder (expectAck : Bool) {b : RingBuffer Byte} (hcap : b.capacity ≤ 2 ^ 31)
    (s : List Request) :
    ∃ b' taken, processLoop (recorder expectAck) b s = some (b', s ++ taken) ∧
      Takes expectAck b b' taken ∧
      (b'.size < b.size ∨ b' = b ∧ taken = [] ∧ (framer expectAck).next b.contents = none) := by
  induction hn : b.size using Nat.strongRecOn generalizing b s with
  | ind n ih =>
    rw [processLoop]
    split
    · next hempty =>
        refine ⟨b, [], by simp, .refl b, .inr ⟨rfl, rfl, ?_⟩⟩
        rw [b.empty_iff.mp hempty]
        rfl
    · next hempty =>
        have hscan : scan expectAck b b.size 0 [] = scanBytes expectAck b.contents [] :=
          scan_eq b [] rfl
        have hexpect : (recorder expectAck).expectAck s = expectAck := rfl
        rw [hexpect, hscan]
        cases hs : scanBytes expectAck b.contents [] with
        | ack =>
            obtain ⟨htakes, hlt⟩ := Takes.consume hcap
              (show (framer expectAck).next b.contents = some (.ack, 1) from
                congrArg Scan.request hs)
            obtain ⟨b', taken, hrun, htakes', -⟩ := ih (b.consume 1).size (by omega)
              (b := b.consume 1) hcap (s ++ [.ack]) rfl
            have := htakes'.size_le
            exact ⟨b', .ack :: taken, by simpa [recorder] using hrun, htakes.trans htakes',
              .inl (by omega)⟩
        | interrupt =>
            obtain ⟨htakes, hlt⟩ := Takes.consume hcap
              (show (framer expectAck).next b.contents = some (.interrupt, 1) from
                congrArg Scan.request hs)
            obtain ⟨b', taken, hrun, htakes', -⟩ := ih (b.consume 1).size (by omega)
              (b := b.consume 1) hcap (s ++ [.interrupt]) rfl
            have := htakes'.size_le
            exact ⟨b', .interrupt :: taken, by simpa [recorder] using hrun, htakes.trans htakes',
              .inl (by omega)⟩
        | malformed i packet =>
            obtain ⟨htakes, hlt⟩ := Takes.consume hcap
              (show (framer expectAck).next b.contents = some (.malformed packet, i) from
                congrArg Scan.request hs)
            exact ⟨b.consume i, [.malformed packet], rfl, htakes, .inl (hn ▸ hlt)⟩
        | packet i packet =>
            obtain ⟨htakes, hlt⟩ := Takes.consume hcap
              (show (framer expectAck).next b.contents = some (.packet packet, i + 1) from
                congrArg Scan.request hs)
            exact ⟨b.consume (i + 1), [.packet packet], rfl, htakes, .inl (hn ▸ hlt)⟩
        | wait => exact ⟨b, [], by simp, .refl b, .inr ⟨rfl, rfl, congrArg Scan.request hs⟩⟩

/-- **Calling `process_requests` until it takes nothing finds every request of the buffer.** -/
theorem settle_recorder {b : RingBuffer Byte} (hcap : b.capacity ≤ 2 ^ 31)
    (hfull : b.size + 1 = b.capacity → (framer expectAck).next b.contents ≠ none)
    (s : List Request) :
    ∃ b', settle (recorder expectAck) b s =
        some (b', s ++ ((framer expectAck).frames b.contents).1) ∧
      b'.contents = ((framer expectAck).frames b.contents).2 ∧ b'.capacity = b.capacity := by
  induction hn : b.size using Nat.strongRecOn generalizing b s with
  | ind n ih =>
    obtain ⟨b', taken, hrun, htakes, hprogress⟩ := processLoop_recorder expectAck hcap s
    have hsize := b.size_lt
    -- A buffer from which something was taken is not full.
    have hnotfull : b'.full = false := by
      rw [Bool.eq_false_iff]
      intro h
      rw [b'.full_iff, htakes.capacity_eq] at h
      rcases hprogress with hlt | ⟨rfl, -, hnone⟩
      · omega
      · exact hfull h hnone
    have hcall : processRequests (recorder expectAck) b s = some (b', s ++ taken) := by
      simp [processRequests, hrun, hnotfull]
    rw [settle, hcall]
    simp only [Option.bind_eq_bind, Option.bind_some]
    rcases hprogress with hlt | ⟨rfl, rfl, hnone⟩
    · rw [if_pos hlt]
      obtain ⟨b'', hrest, hcontents, hcapacity⟩ := ih b'.size (by omega) (b := b')
        (htakes.capacity_eq ▸ hcap) (by rw [htakes.capacity_eq]; omega) (s ++ taken) rfl
      refine ⟨b'', ?_, ?_, hcapacity.trans htakes.capacity_eq⟩
      · rw [hrest, htakes.frames_eq, List.append_assoc]
      · rw [hcontents, htakes.frames_eq]
    · rw [if_neg (lt_irrefl _), Framer.frames_of_none hnone]
      exact ⟨b', rfl, rfl, rfl⟩

theorem feed_recorder {chunks : List (List Byte)} {b : RingBuffer Byte}
    (hcap : b.capacity ≤ 2 ^ 31) (hnext : (framer expectAck).next b.contents = none)
    (hfit : NeverOverfills expectAck b.capacity b.contents chunks) (s : List Request) :
    ∃ b', feed (recorder expectAck) chunks b s =
        some (b', s ++ ((framer expectAck).frames (b.contents ++ chunks.flatten)).1) ∧
      b'.contents = ((framer expectAck).frames (b.contents ++ chunks.flatten)).2 := by
  induction chunks generalizing b s with
  | nil =>
      rw [List.flatten_nil, List.append_nil, Framer.frames_of_none hnext]
      exact ⟨b, by simp [feed], rfl⟩
  | cons chunk chunks ih =>
      obtain ⟨hroom, hfull, hfit⟩ := hfit
      obtain ⟨b₁, hreceive, hcontents₁, hcapacity₁⟩ := RingBuffer.receive_eq hcap
        (show b.size + chunk.length < b.capacity by simpa using hroom)
      have hfull₁ : b₁.size + 1 = b₁.capacity → (framer expectAck).next b₁.contents ≠ none := by
        intro hsize hnone
        rw [← RingBuffer.length_contents, hcontents₁, hcapacity₁] at hsize
        rw [hcontents₁] at hnone
        exact hfull hsize (incomplete_of_next_eq_none hnone)
      obtain ⟨b₂, hsettle, hcontents₂, hcapacity₂⟩ := settle_recorder (hcapacity₁ ▸ hcap) hfull₁ s
      rw [hcontents₁] at hsettle hcontents₂
      obtain ⟨b₃, hfeed, hcontents₃⟩ := ih (b := b₂) (by rw [hcapacity₂, hcapacity₁]; exact hcap)
        (by rw [hcontents₂]; exact Framer.next_rest _)
        (by rw [hcapacity₂, hcapacity₁, hcontents₂]; exact hfit) _
      have happend := Framer.frames_append (F := framer expectAck) (b.contents ++ chunk)
        chunks.flatten
      rw [← hcontents₂] at happend
      rw [List.flatten_cons, ← List.append_assoc, happend]
      refine ⟨b₃, ?_, hcontents₃⟩
      rw [feed, hreceive]
      simp only [Option.bind_eq_bind, Option.bind_some, hsettle]
      rw [hfeed, List.append_assoc]

/-- **The requests do not depend on how the stream arrives.**  Whatever the chunks, the
requests and what stays unread are those found when the whole stream is in a buffer at once.
The requests and the unread bytes make up the stream, and what stays unread is incomplete. -/
theorem processRequests_chunking (expectAck : Bool) (chunks : List (List Byte))
    (recvBuf : RingBuffer Byte) (hcap : recvBuf.capacity ≤ 2 ^ 31)
    (hempty : recvBuf.contents = [])
    (hfit : NeverOverfills expectAck recvBuf.capacity [] chunks) :
    ∃ recvBuf' requests, feed (recorder expectAck) chunks recvBuf [] = some (recvBuf', requests) ∧
      (∀ whole : RingBuffer Byte, whole.capacity ≤ 2 ^ 31 → whole.contents = chunks.flatten →
        (whole.full = true → ¬Incomplete expectAck chunks.flatten) →
        ∃ whole', settle (recorder expectAck) whole [] = some (whole', requests) ∧
          whole'.contents = recvBuf'.contents) ∧
      requests.flatMap Request.bytes ++ recvBuf'.contents = chunks.flatten ∧
      Incomplete expectAck recvBuf'.contents := by
  rw [← hempty] at hfit
  have hnext : (framer expectAck).next recvBuf.contents = none := by
    rw [hempty]
    rfl
  obtain ⟨recvBuf', hfeed, hcontents⟩ := feed_recorder hcap hnext hfit []
  rw [hempty, List.nil_append] at hfeed hcontents
  refine ⟨recvBuf', _, hfeed, fun whole hwhole hstream hfull => ?_, ?_, ?_⟩
  · have hroom : whole.size + 1 = whole.capacity →
        (framer expectAck).next whole.contents ≠ none := by
      intro h hnone
      rw [hstream] at hnone
      exact hfull (whole.full_iff.mpr h) (incomplete_of_next_eq_none hnone)
    obtain ⟨whole', hsettle, hcontents', -⟩ := settle_recorder hwhole hroom []
    rw [hstream] at hsettle hcontents'
    exact ⟨whole', hsettle, hcontents'.trans hcontents.symm⟩
  · rw [hcontents]
    exact Framer.flatMap_frames (fun h => (request_spec h).2.2) chunks.flatten
  · rw [hcontents]
    exact incomplete_of_next_eq_none (Framer.next_rest _)

/-- A stream that is shorter than the buffer never overfills it. -/
theorem neverOverfills_of_length {capacity : Nat} {unread : List Byte} {chunks : List (List Byte)}
    (h : unread.length + chunks.flatten.length + 1 < capacity) :
    NeverOverfills expectAck capacity unread chunks := by
  induction chunks generalizing unread with
  | nil => trivial
  | cons chunk chunks ih =>
      rw [List.flatten_cons, List.length_append] at h
      have hrest := congrArg List.length (Framer.flatMap_frames (F := framer expectAck)
        (fun h => (request_spec h).2.2) (unread ++ chunk))
      rw [List.length_append, List.length_append] at hrest
      refine ⟨by simp; omega, fun hfull => ?_, ih (by omega)⟩
      rw [List.length_append] at hfull
      omega

/-- `recv_buf` of a new server. -/
def emptyRecvBuf : RingBuffer Byte where
  data _ := 0
  start := 0
  stop := 0
  capacity := 0x180000
  capacity_lt := by decide
  start_lt := by decide
  stop_lt := by decide

/-- An acknowledgement and `$g#67`, in three chunks. -/
theorem chunking_read_registers :
    let chunks := ["+$", "g#6", "7"].map fun s => s.toList.map ascii
    NeverOverfills true emptyRecvBuf.capacity [] chunks ∧
    ∃ recvBuf' requests, feed (recorder true) chunks emptyRecvBuf [] = some (recvBuf', requests) ∧
      (∀ whole : RingBuffer Byte, whole.capacity ≤ 2 ^ 31 → whole.contents = chunks.flatten →
        (whole.full = true → ¬Incomplete true chunks.flatten) →
        ∃ whole', settle (recorder true) whole [] = some (whole', requests) ∧
          whole'.contents = recvBuf'.contents) ∧
      requests.flatMap Request.bytes ++ recvBuf'.contents = chunks.flatten ∧
      Incomplete true recvBuf'.contents := by
  intro chunks
  have hfit : NeverOverfills true emptyRecvBuf.capacity [] chunks :=
    neverOverfills_of_length (by decide)
  exact ⟨hfit, processRequests_chunking true chunks emptyRecvBuf (by decide) rfl hfit⟩

end SpikeSim.Gdb
