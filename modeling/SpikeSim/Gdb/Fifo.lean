/-
# The ring buffers as queues over whole runs

A ring buffer is used through four operations: a read copies elements behind its end and
counts them, `consume` takes elements from its front, `append` copies elements in one or
two pieces, and `reset` empties it.  The history of a buffer is the list of what was added
since it was made or reset, with the number of elements that were consumed since.  `Fifo`
says that a buffer shows exactly its history, and it holds along every run as long as the
capacity is at most `2 ^ 31`.  Beyond that `start + bytes` overflows: a buffer that was
filled from its last slot does not become empty when all of it is consumed.

`append` has one more defect, at every capacity: the assertion between its two copies asks
for room behind the second, so that it fails when a copy that wraps around would fill the
buffer.
-/

import SpikeSim.Gdb.RingBuffer

namespace SpikeSim.Gdb.RingBuffer

variable {α : Type}

/-- The constructor: the array is not initialized, so its elements are arbitrary. -/
def fresh (data : Nat → α) (capacity : Nat) (hlt : capacity < 2 ^ 32) (hpos : 0 < capacity) :
    RingBuffer α where
  data := data
  start := 0
  stop := 0
  capacity := capacity
  capacity_lt := hlt
  start_lt := hpos
  stop_lt := hpos

section
variable (b : RingBuffer α)

def reset : RingBuffer α :=
  { b with
    start := 0
    stop := 0
    start_lt := b.capacity_pos
    stop_lt := b.capacity_pos }

/-- `contiguous_data_size()` elements from `contiguous_data()`. -/
def contiguousData : List α := (List.range b.contiguousDataSize).map fun i => b.data (b.start + i)

end

/-- The runs of a buffer, with the elements added and the number consumed since it was made
or reset.  Reads and consumptions keep to the sizes that the buffer reports. -/
inductive Run (b₀ : RingBuffer α) : RingBuffer α → List α → Nat → Prop
  | made : Run b₀ b₀ [] 0
  | received {b b' : RingBuffer α} {added : List α} {taken : Nat} (src : List α) :
      Run b₀ b added taken → src.length ≤ b.contiguousEmptySize →
      (b.copyIn src).dataAdded src.length = some b' → Run b₀ b' (added ++ src) taken
  | consumed {b : RingBuffer α} {added : List α} {taken : Nat} (k : Nat) :
      Run b₀ b added taken → k ≤ b.size → Run b₀ (b.consume k) added (taken + k)
  | emptied {b : RingBuffer α} {added : List α} {taken : Nat} :
      Run b₀ b added taken → Run b₀ b.reset [] 0

/-- The buffer shows its history: it is a queue of up to `capacity - 1` elements. -/
structure Fifo (b : RingBuffer α) (added : List α) (taken : Nat) : Prop where
  start_lt : b.start < b.capacity
  stop_lt : b.stop < b.capacity
  taken_le : taken ≤ added.length
  size_eq : b.size = added.length - taken
  get_eq : ∀ i < b.size, added[taken + i]? = some (b.get i)
  dataAdded_isSome : ∀ src : List α, src.length ≤ b.contiguousEmptySize →
    ((b.copyIn src).dataAdded src.length).isSome
  contiguousEmpty_le : b.stop + b.contiguousEmptySize ≤ b.capacity
  contiguousData_le : b.start + b.contiguousDataSize ≤ b.capacity
  contiguousData_prefix : b.contiguousData <+: added.drop taken
  contiguousData_ne_nil : b.empty = false → b.contiguousData ≠ []
  full_iff : b.full = true ↔ b.size = b.capacity - 1

/-! ## Runs of buffers of up to `2 ^ 31` elements -/

section
variable (b : RingBuffer α)

theorem contiguousDataSize_le : b.contiguousDataSize ≤ b.size := by
  rw [contiguousDataSize, size]
  split <;> omega

theorem contiguousData_eq : b.contiguousData = b.stored.take b.contiguousDataSize := by
  have h₁ := b.start_lt
  have h₂ := b.stop_lt
  have hle := b.contiguousDataSize_le
  rw [stored, ← List.map_take, List.take_range, Nat.min_eq_left hle]
  apply List.map_congr_left
  intro i hi
  rw [List.mem_range] at hi
  have hinside : b.start + i < b.capacity := by
    rw [contiguousDataSize] at hi
    split at hi <;> omega
  rw [slot, if_pos hinside]

theorem contiguousData_ne_nil (h : b.empty = false) : b.contiguousData ≠ [] := by
  have h₁ := b.start_lt
  have hne : b.start ≠ b.stop := by
    rw [empty, decide_eq_false_iff_not] at h
    exact h
  rw [← List.length_pos_iff, contiguousData, List.length_map, List.length_range,
    contiguousDataSize]
  split <;> omega

theorem contents_reset : b.reset.contents = [] := by
  rw [← empty_iff]
  rfl

/-- A buffer of that size whose contents are the rest of the history shows the history. -/
theorem Fifo.of_contents (hcap : b.capacity ≤ 2 ^ 31) {added : List α} {taken : Nat}
    (htaken : taken ≤ added.length) (hcontents : b.contents = added.drop taken) :
    Fifo b added taken := by
  have h₁ := b.start_lt
  have h₂ := b.stop_lt
  have hsize : b.size = added.length - taken := by
    rw [← length_contents, hcontents, List.length_drop]
  have hpre : b.contiguousData <+: added.drop taken := by
    rw [contiguousData_eq, ← contents_eq_stored hcap, hcontents]
    exact List.take_prefix _ _
  have hget (i : Nat) (hi : i < b.size) : added[taken + i]? = some (b.get i) := by
    rw [← List.getElem?_drop, ← hcontents, contents, List.getElem?_map,
      List.getElem?_range hi]
    rfl
  refine ⟨h₁, h₂, htaken, hsize, hget, ?_, ?_, ?_, hpre, b.contiguousData_ne_nil, ?_⟩
  · intro src hsrc
    obtain ⟨b', hb', -⟩ := b.dataAdded_stores hsrc
    rw [hb']
    rfl
  · rw [contiguousEmptySize]
    split_ifs <;> omega
  · rw [contiguousDataSize]
    split <;> omega
  · rw [b.full_iff]
    omega

end

/-- What a run keeps: the capacity, and the contents are what was added and not consumed. -/
theorem Run.contents_eq {b₀ b : RingBuffer α} {added : List α} {taken : Nat}
    (hcap : b₀.capacity ≤ 2 ^ 31) (hempty : b₀.contents = []) (h : Run b₀ b added taken) :
    b.capacity = b₀.capacity ∧ taken ≤ added.length ∧ b.contents = added.drop taken := by
  induction h with
  | made => exact ⟨rfl, le_rfl, hempty⟩
  | received src _ hfit hadded ih =>
      obtain ⟨hcapacity, htaken, hcontents⟩ := ih
      obtain ⟨b', hb', hext⟩ := dataAdded_copyIn (hcapacity ▸ hcap) hfit
      obtain rfl := Option.some.inj (hb'.symm.trans hadded)
      refine ⟨hext.capacity_eq.trans hcapacity, ?_, ?_⟩
      · rw [List.length_append]
        omega
      · rw [hext.contents_eq, hcontents, List.drop_append_of_le_length htaken]
  | consumed k _ hk ih =>
      obtain ⟨hcapacity, htaken, hcontents⟩ := ih
      refine ⟨hcapacity, ?_, ?_⟩
      · rw [← length_contents, hcontents, List.length_drop] at hk
        omega
      · rw [contents_consume (hcapacity ▸ hcap) hk, hcontents, List.drop_drop]
  | emptied _ ih => exact ⟨ih.1, le_rfl, contents_reset _⟩

/-! ## Buffers of more than `2 ^ 31` elements

The buffer is filled, emptied, filled again from its last slot and emptied again.  Then
`start + bytes` is `2 * (capacity - 1)`, which is at least `2 ^ 32`. -/

/-- Every read that keeps to `contiguous_empty_size()` is a step of a run. -/
theorem Run.receive {b₀ b : RingBuffer α} {added : List α} {taken : Nat}
    (h : Run b₀ b added taken) (src : List α) (hfit : src.length ≤ b.contiguousEmptySize) :
    ∃ b', Run b₀ b' (added ++ src) taken ∧ Stores b b' src := by
  obtain ⟨b', hb', hstores⟩ := b.dataAdded_stores hfit
  exact ⟨b', .received src h hfit hb', hstores⟩

section
variable (data : Nat → α) {capacity : Nat} (hlt : capacity < 2 ^ 32) (hpos : 0 < capacity)

include hlt

/-- A run to a buffer that is full from its last slot on. -/
theorem exists_run_full (hbig : 2 ^ 31 < capacity) : ∃ b added taken,
    Run (fresh data capacity hlt hpos) b added taken ∧ added.length = taken + (capacity - 1) ∧
      b.start = capacity - 1 ∧ b.stop = capacity - 2 ∧ b.capacity = capacity := by
  have x := data 0
  obtain ⟨b₁, hrun₁, hb₁⟩ := (Run.made : Run (fresh data capacity hlt hpos) _ _ _).receive
    (List.replicate (capacity - 1) x) (by simp [contiguousEmptySize, fresh])
  have hstop₁ : b₁.stop = capacity - 1 := by
    rw [hb₁.stop_eq]
    simp [fresh]
    omega
  have hstart₁ : b₁.start = 0 := hb₁.start_eq
  have hcap₁ : b₁.capacity = capacity := hb₁.capacity_eq
  have hsize₁ : b₁.size = capacity - 1 := by simp [size, hstart₁, hstop₁]
  have hrun₂ := hrun₁.consumed (capacity - 1) hsize₁.ge
  have hstart₂ : (b₁.consume (capacity - 1)).start = capacity - 1 := by
    change (b₁.start + (capacity - 1)) % 2 ^ 32 % b₁.capacity = capacity - 1
    rw [hstart₁, hcap₁, Nat.mod_eq_of_lt (b := 2 ^ 32) (by omega), Nat.mod_eq_of_lt (by omega)]
    omega
  -- The last slot is the only room behind the end.
  obtain ⟨b₃, hrun₃, hb₃⟩ := hrun₂.receive [x] (by
    rw [contiguousEmptySize, hstart₂, show (b₁.consume (capacity - 1)).stop = _ from hstop₁,
      show (b₁.consume (capacity - 1)).capacity = _ from hcap₁, List.length_singleton]
    split_ifs <;> omega)
  have hstart₃ : b₃.start = capacity - 1 := hb₃.start_eq.trans hstart₂
  have hcap₃ : b₃.capacity = capacity := hb₃.capacity_eq.trans hcap₁
  have hstop₃ : b₃.stop = 0 := by
    rw [hb₃.stop_eq]
    simp [consume, hstop₁, hcap₁]
    omega
  obtain ⟨b₄, hrun₄, hb₄⟩ := hrun₃.receive (List.replicate (capacity - 2) x) (by
    rw [contiguousEmptySize, hstart₃, hstop₃, List.length_replicate]
    split_ifs <;> omega)
  have hstop₄ : b₄.stop = capacity - 2 := by
    rw [hb₄.stop_eq]
    simp [hstop₃, hcap₃]
    omega
  refine ⟨b₄, _, _, hrun₄, ?_, hb₄.start_eq.trans hstart₃, hstop₄, hb₄.capacity_eq.trans hcap₃⟩
  simp
  omega

/-- A run that has consumed all that was added, to a buffer that is not empty. -/
theorem exists_run_not_empty (hbig : 2 ^ 31 < capacity) : ∃ b added,
    Run (fresh data capacity hlt hpos) b added added.length ∧ b.size = 2 ^ 32 - capacity := by
  obtain ⟨b, added, taken, hrun, hadded, hstart, hstop, hcap⟩ :=
    exists_run_full data hlt hpos hbig
  have hsize : b.size = capacity - 1 := by
    rw [size, hstart, hstop, hcap]
    split <;> omega
  have hall := hrun.consumed (capacity - 1) hsize.ge
  rw [← hadded] at hall
  have hstart' : (b.consume (capacity - 1)).start = 2 * (capacity - 1) - 2 ^ 32 := by
    have hsum : (capacity - 1 + (capacity - 1)) % 2 ^ 32 = 2 * (capacity - 1) - 2 ^ 32 := by
      omega
    change (b.start + (capacity - 1)) % 2 ^ 32 % b.capacity = _
    rw [hstart, hcap, hsum]
    exact Nat.mod_eq_of_lt (by omega)
  refine ⟨_, added, hall, ?_⟩
  rw [size, hstart', show (b.consume (capacity - 1)).stop = capacity - 2 from hstop]
  split <;> omega

end

/-- **A ring buffer is a queue of up to `capacity - 1` elements exactly as long as its capacity
is at most `2 ^ 31`.** -/
theorem fifo_iff (data : Nat → α) {capacity : Nat} (hlt : capacity < 2 ^ 32)
    (hcap : 2 ≤ capacity) :
    (∀ b added taken, Run (fresh data capacity hlt (by omega)) b added taken →
      Fifo b added taken) ↔ capacity ≤ 2 ^ 31 := by
  constructor
  · intro h
    by_contra hbig
    obtain ⟨b, added, hrun, hsize⟩ :=
      exists_run_not_empty data hlt (by omega) (Nat.lt_of_not_le hbig)
    have hshown := (h b added added.length hrun).size_eq
    omega
  · intro hsmall b added taken hrun
    have hempty : (fresh data capacity hlt (by omega)).contents = [] := rfl
    obtain ⟨hcapacity, htaken, hcontents⟩ := hrun.contents_eq hsmall hempty
    exact .of_contents b (hcapacity ▸ hsmall) htaken hcontents

/-- The receive buffer of the server is a queue. -/
theorem fifo_recvBuf : (∀ b added taken,
    Run (fresh (fun _ => (0 : BitVec 8)) 0x180000 (by decide) (by decide)) b added taken →
      Fifo b added taken) ↔ 0x180000 ≤ 2 ^ 31 :=
  fifo_iff _ (by decide) (by decide)

/-- A buffer of bytes with one slot more than `2 ^ 31` is no queue. -/
theorem not_fifo_large : ¬∀ (capacity : Nat) (hlt : capacity < 2 ^ 32) (hcap : 2 ≤ capacity)
    (b : RingBuffer (BitVec 8)) (added : List (BitVec 8)) (taken : Nat),
    Run (fresh (fun _ => 0) capacity hlt (by omega)) b added taken → Fifo b added taken := by
  intro h
  obtain ⟨b, added, hrun, hsize⟩ := exists_run_not_empty (fun _ => (0 : BitVec 8))
    (show 2 ^ 31 + 1 < 2 ^ 32 by omega) (by omega) (by omega)
  have hshown := (h (2 ^ 31 + 1) (by omega) (by omega) b added added.length hrun).size_eq
  omega

/-! ## Appending -/

/-- **`append` takes what there is room for, except where its copy wraps around and would fill
the buffer.** -/
theorem append_stored_iff (b : RingBuffer α) {src : List α}
    (hroom : src.length ≤ b.capacity - 1 - b.size) :
    (∃ b', b.append src = some b' ∧ b'.stored = b.stored ++ src) ↔
      ¬(1 < b.start ∧ b.start ≤ b.stop ∧ src.length = b.capacity - 1 - b.size) := by
  have hlt := b.size_lt
  have hfull : src.length = b.capacity - 1 - b.size ↔ src.length + b.size + 1 = b.capacity := by
    omega
  rw [hfull, ← b.append_isSome_iff (by omega), Option.isSome_iff_exists]
  constructor
  · rintro ⟨b', hb', -⟩
    exact ⟨b', hb'⟩
  · rintro ⟨b', hb'⟩
    exact ⟨b', hb', (b.stored_append hb').1⟩

/-- The first reply of the server has room. -/
theorem append_stored_reply : ∃ b', (fresh (fun _ => (0 : BitVec 8)) 0x10000 (by decide)
    (by decide)).append [0x2b, 0x24] = some b' ∧ b'.stored = [0x2b, 0x24] :=
  (append_stored_iff (fresh (fun _ => 0) 0x10000 (by decide) (by decide)) (by decide)).mpr
    (by decide)

/-- Two elements go through a buffer of four slots, and then three do not fit. -/
theorem append_wrapped_none : ¬∀ (b : RingBuffer Nat) (added : List Nat) (taken : Nat),
    Run (fresh (fun _ => 0) 4 (by decide) (by decide)) b added taken →
      ∀ src : List Nat, src.length ≤ b.capacity - 1 - b.size →
        ∃ b', b.append src = some b' ∧ b'.stored = b.stored ++ src := by
  intro h
  obtain ⟨b, hrun, hb⟩ := Run.receive
    (.made : Run (fresh (fun _ => 0) 4 (by decide) (by decide)) _ _ _) [7, 8] (by decide)
  have hstart : b.start = 0 := hb.start_eq
  have hstop : b.stop = 2 := hb.stop_eq
  have hcap : b.capacity = 4 := hb.capacity_eq
  have hsize : b.size = 2 := by simp [size, hstart, hstop]
  have hstart' : (b.consume 2).start = 2 := by simp [consume, hstart, hcap]
  have hsize' : (b.consume 2).size = 0 := by
    simp [size, hstart', show (b.consume 2).stop = 2 from hstop]
  obtain ⟨b', hb', -⟩ := h _ _ _ (hrun.consumed 2 hsize.ge) [1, 2, 3]
    (by rw [hsize', show (b.consume 2).capacity = 4 from hcap]; decide)
  have hsome : ((b.consume 2).append [1, 2, 3]).isSome := by rw [hb']; rfl
  rw [append_isSome_iff _ (by rw [hsize', show (b.consume 2).capacity = 4 from hcap]; decide)]
    at hsome
  apply hsome
  rw [hstart', hsize', show (b.consume 2).stop = 2 from hstop,
    show (b.consume 2).capacity = 4 from hcap]
  decide

end SpikeSim.Gdb.RingBuffer
