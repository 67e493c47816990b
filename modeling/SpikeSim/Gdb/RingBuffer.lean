/-
# The ring buffers of the debug server

`circular_buffer_t` keeps up to `capacity - 1` elements in an array, from `start` up to
but not including `end`, and continues at the front of the array when it reaches its
end.  The module follows the operations of the class and shows that the buffer is a
queue: `contents` lists the elements from the oldest to the newest, adding data
appends to it and consuming data drops from it.

The indices are 32-bit numbers, so `start + i` wraps around for a buffer of more than
`2 ^ 31` elements.  A failed assertion is `none`.
-/

import Mathlib

namespace SpikeSim.Gdb

variable {α : Type}

/-- `circular_buffer_t`.  `stop` is the field `end`. -/
structure RingBuffer (α : Type) where
  data : Nat → α
  start : Nat
  stop : Nat
  capacity : Nat
  capacity_lt : capacity < 2 ^ 32
  start_lt : start < capacity
  stop_lt : stop < capacity

namespace RingBuffer

variable (b : RingBuffer α)

theorem capacity_pos : 0 < b.capacity := b.start.zero_le.trans_lt b.start_lt

def size : Nat :=
  if b.start ≤ b.stop then b.stop - b.start else b.stop + b.capacity - b.start

def empty : Bool := b.start = b.stop

def full : Bool := (b.stop + 1) % 2 ^ 32 % b.capacity = b.start

/-- `operator[]`. -/
def get (i : Nat) : α := b.data ((b.start + i) % 2 ^ 32 % b.capacity)

def contiguousEmptySize : Nat :=
  if b.start ≤ b.stop then
    if b.start = 0 then b.capacity - b.stop - 1 else b.capacity - b.stop
  else b.start - b.stop - 1

def consume (bytes : Nat) : RingBuffer α :=
  { b with
    start := (b.start + bytes) % 2 ^ 32 % b.capacity
    start_lt := Nat.mod_lt _ b.capacity_pos }

def dataAdded (bytes : Nat) : Option (RingBuffer α) :=
  if h : b.stop + bytes < b.capacity then some { b with stop := b.stop + bytes, stop_lt := h }
  else if b.stop + bytes = b.capacity then
    some { b with stop := 0, stop_lt := b.capacity_pos }
  else none

/-- The elements are copied to `contiguous_empty()`. -/
def copyIn (src : List α) : RingBuffer α :=
  { b with
    data := fun k => if b.stop ≤ k then src.getD (k - b.stop) (b.data k) else b.data k }

/-- A `::read` from the socket while `src` is pending, and what stays pending. -/
def read (src : List α) : Option (RingBuffer α × List α) := do
  let count := min src.length b.contiguousEmptySize
  let b ← (b.copyIn (src.take count)).dataAdded count
  return (b, src.drop count)

/-- The reads that take `src` from the socket. -/
def receive (src : List α) : Option (RingBuffer α) := do
  let (b, left) ← b.read src
  let (b, _) ← b.read left
  return b

/-- `append`.  It asserts that room stays after what it copies to the front. -/
def append (src : List α) : Option (RingBuffer α) := do
  let copy := min src.length b.contiguousEmptySize
  let b ← (b.copyIn (src.take copy)).dataAdded copy
  let rest := src.drop copy
  if rest.length = 0 then return b
  if rest.length < b.contiguousEmptySize then (b.copyIn rest).dataAdded rest.length else none

def contiguousDataSize : Nat :=
  if b.start ≤ b.stop then b.stop - b.start else b.capacity - b.start

/-- The loop of `write`, when the socket takes all that is offered to it: what the buffer
holds lies in at most two pieces. -/
def writeOut : RingBuffer α :=
  let b := b.consume b.contiguousDataSize
  b.consume b.contiguousDataSize

/-! ## The buffer as a queue -/

/-- The elements, the oldest first. -/
def contents : List α := (List.range b.size).map b.get

@[simp]
theorem length_contents : b.contents.length = b.size := by simp [contents]

theorem size_lt : b.size < b.capacity := by
  have h₁ := b.start_lt
  have h₂ := b.stop_lt
  rw [size]
  split <;> omega

theorem empty_iff : b.empty = true ↔ b.contents = [] := by
  have h₁ := b.start_lt
  have h₂ := b.stop_lt
  rw [← List.length_eq_zero_iff, length_contents, empty, decide_eq_true_iff, size]
  split <;> omega

theorem full_iff : b.full = true ↔ b.size + 1 = b.capacity := by
  have h₁ := b.start_lt
  have h₂ := b.stop_lt
  have h₃ := b.capacity_lt
  rw [full, decide_eq_true_iff, Nat.mod_eq_of_lt (b := 2 ^ 32) (by omega), size]
  rcases Nat.lt_or_ge (b.stop + 1) b.capacity with h | h
  · rw [Nat.mod_eq_of_lt h]
    split <;> omega
  · have h₃ : b.stop + 1 = b.capacity := by omega
    rw [h₃, Nat.mod_self]
    split <;> omega

/-- Where the element of an index lies, if the index does not wrap around. -/
def slot (i : Nat) : Nat :=
  if b.start + i < b.capacity then b.start + i else b.start + i - b.capacity

theorem position_eq {i : Nat} (hi : i < b.capacity) (hw : b.start + i < 2 ^ 32) :
    (b.start + i) % 2 ^ 32 % b.capacity = b.slot i := by
  have h₁ := b.start_lt
  rw [Nat.mod_eq_of_lt hw, slot]
  split
  · next h => exact Nat.mod_eq_of_lt h
  · next h =>
      rw [Nat.mod_eq_sub_mod (by omega)]
      exact Nat.mod_eq_of_lt (by omega)

theorem size_consume {k : Nat} (hk : k ≤ b.size) (hw : b.start + k < 2 ^ 32) :
    (b.consume k).size = b.size - k := by
  have h₁ := b.start_lt
  have h₂ := b.stop_lt
  have h₃ := b.size_lt
  have hstart : (b.consume k).start = b.slot k := b.position_eq (by omega) hw
  simp only [size, hstart, slot, show (b.consume k).stop = b.stop from rfl,
    show (b.consume k).capacity = b.capacity from rfl] at hk h₃ ⊢
  split_ifs at * <;> omega

/-- Consuming one element of a buffer that is not empty. -/
theorem size_consume_one (h : b.empty = false) : (b.consume 1).size + 1 = b.size := by
  have h₁ := b.start_lt
  have h₂ := b.capacity_lt
  have hpos : 0 < b.size := by
    rw [← length_contents, List.length_pos_iff]
    intro hnil
    rw [b.empty_iff.mpr hnil] at h
    cases h
  have hsize := b.size_consume (k := 1) hpos (by omega)
  omega

/-! ## What the array holds

Where the elements lie does not depend on how an index is added to `start`. -/

/-- The elements as they lie in the array, the oldest first. -/
def stored : List α := (List.range b.size).map fun i => b.data (b.slot i)

@[simp]
theorem length_stored : b.stored.length = b.size := by simp [stored]

/-- The buffer after `src` was copied and counted, whatever its capacity. -/
structure Stores (b b' : RingBuffer α) (src : List α) : Prop where
  stored_eq : b'.stored = b.stored ++ src
  capacity_eq : b'.capacity = b.capacity
  start_eq : b'.start = b.start
  stop_eq : b'.stop = if b.stop + src.length < b.capacity then b.stop + src.length else 0

/-- The elements once `src` has been copied and the end moved past it. -/
theorem stored_of_copied {src : List α} (hsrc : src.length ≤ b.contiguousEmptySize)
    {b' : RingBuffer α} (hdata : b'.data = (b.copyIn src).data) (hstart : b'.start = b.start)
    (hcapacity : b'.capacity = b.capacity)
    (hstop : b'.stop = if b.stop + src.length < b.capacity then b.stop + src.length else 0) :
    b'.stored = b.stored ++ src := by
  have h₁ := b.start_lt
  have h₂ := b.stop_lt
  have hlt := b.size_lt
  have hlt' := b'.size_lt
  have hsize : b'.size = b.size + src.length := by
    simp only [size, contiguousEmptySize, hstart, hcapacity, hstop] at hsrc ⊢
    split_ifs at * <;> omega
  apply List.ext_getElem
  · simp [hsize]
  · intro i hi _
    rw [length_stored, hsize] at hi
    have hget : b'.data (b'.slot i) = if b.stop ≤ b.slot i then
        src.getD (b.slot i - b.stop) (b.data (b.slot i)) else b.data (b.slot i) := by
      have hslot : b'.slot i = b.slot i := by simp only [slot, hstart, hcapacity]
      rw [hdata, hslot]
      rfl
    simp only [stored, List.getElem_map, List.getElem_range]
    rw [hget]
    rcases Nat.lt_or_ge i b.size with hold | hnew
    -- An element of before lies outside of the space that was empty.
    · have hout : b.slot i < b.stop ∨ b.stop + src.length ≤ b.slot i := by
        simp only [size, contiguousEmptySize, slot] at hold hsrc ⊢
        split_ifs at * <;> omega
      rw [List.getElem_append_left (by simpa using hold), List.getElem_map, List.getElem_range]
      split
      · rw [List.getD_eq_default]
        omega
      · rfl
    · have hpos : b.slot i = b.stop + (i - b.size) := by
        simp only [size, contiguousEmptySize, slot] at hnew hsrc hi ⊢
        split_ifs at * <;> omega
      rw [List.getElem_append_right (by simpa using hnew), hpos, if_pos (by omega),
        Nat.add_sub_cancel_left, List.getD_eq_getElem _ _ (by omega)]
      simp

/-- What fits in one piece passes the assertion of `data_added`. -/
theorem dataAdded_stores {src : List α} (hsrc : src.length ≤ b.contiguousEmptySize) :
    ∃ b', (b.copyIn src).dataAdded src.length = some b' ∧ Stores b b' src := by
  have h₁ := b.start_lt
  have h₂ := b.stop_lt
  have hle : b.stop + src.length ≤ b.capacity := by
    rw [contiguousEmptySize] at hsrc
    split_ifs at hsrc <;> omega
  by_cases h : b.stop + src.length < b.capacity
  · have hstop : b.stop + src.length =
        if b.stop + src.length < b.capacity then b.stop + src.length else 0 := (if_pos h).symm
    exact ⟨_, dif_pos h, b.stored_of_copied hsrc rfl rfl rfl hstop, rfl, rfl, hstop⟩
  · have heq : b.stop + src.length = b.capacity := by omega
    have hstop : 0 = if b.stop + src.length < b.capacity then b.stop + src.length else 0 :=
      (if_neg h).symm
    exact ⟨_, (dif_neg h).trans (if_pos heq), b.stored_of_copied hsrc rfl rfl rfl hstop,
      rfl, rfl, hstop⟩

/-- `append` copies what fits in one piece, then what is left to the front, and asserts in
between that this leaves room. -/
theorem append_pieces (src : List α) : ∃ b₁,
    Stores b b₁ (src.take b.contiguousEmptySize) ∧
      b.append src = if src.length ≤ b.contiguousEmptySize then some b₁
        else if (src.drop b.contiguousEmptySize).length < b₁.contiguousEmptySize then
          (b₁.copyIn (src.drop b.contiguousEmptySize)).dataAdded
            (src.drop b.contiguousEmptySize).length
        else none := by
  have hmin : src.take (min src.length b.contiguousEmptySize) = src.take b.contiguousEmptySize := by
    rw [Nat.min_comm, ← List.take_take, List.take_length]
  have hlen : (src.take b.contiguousEmptySize).length = min src.length b.contiguousEmptySize := by
    rw [List.length_take, Nat.min_comm]
  have hfit : (src.take b.contiguousEmptySize).length ≤ b.contiguousEmptySize := by simp
  obtain ⟨b₁, hb₁, hstores⟩ := b.dataAdded_stores hfit
  rw [hlen] at hb₁
  refine ⟨b₁, hstores, ?_⟩
  rw [append]
  simp only [hmin, hb₁, Option.bind_eq_bind, Option.bind_some, List.length_drop]
  by_cases hrest : src.length ≤ b.contiguousEmptySize
  · rw [if_pos (show src.length - min src.length b.contiguousEmptySize = 0 by omega),
      if_pos hrest]
    rfl
  · rw [if_neg (show ¬src.length - min src.length b.contiguousEmptySize = 0 by omega),
      if_neg hrest, show min src.length b.contiguousEmptySize = b.contiguousEmptySize by omega]

/-- The elements after an `append` that succeeds. -/
theorem stored_append {src : List α} {b' : RingBuffer α} (h : b.append src = some b') :
    b'.stored = b.stored ++ src ∧ b'.capacity = b.capacity := by
  obtain ⟨b₁, hb₁, happend⟩ := b.append_pieces src
  rw [happend] at h
  by_cases hrest : src.length ≤ b.contiguousEmptySize
  · rw [if_pos hrest] at h
    cases h
    refine ⟨?_, hb₁.capacity_eq⟩
    rw [hb₁.stored_eq, List.take_of_length_le hrest]
  · rw [if_neg hrest] at h
    by_cases hleft : (src.drop b.contiguousEmptySize).length < b₁.contiguousEmptySize
    swap
    · rw [if_neg hleft] at h
      cases h
    obtain ⟨b₂, hb₂, hstores⟩ := b₁.dataAdded_stores hleft.le
    rw [if_pos hleft, hb₂] at h
    cases h
    refine ⟨?_, hstores.capacity_eq.trans hb₁.capacity_eq⟩
    rw [hstores.stored_eq, hb₁.stored_eq, List.append_assoc, List.take_append_drop]

/-- Where the copy goes in two pieces, the second has the space in front of `start`. -/
theorem contiguousEmptySize_rest {b₁ : RingBuffer α} {src : List α}
    (hb₁ : Stores b b₁ (src.take b.contiguousEmptySize))
    (hroom : src.length + b.size + 1 ≤ b.capacity) (hlong : b.contiguousEmptySize < src.length) :
    1 < b.start ∧ b.start ≤ b.stop ∧ b.contiguousEmptySize = b.capacity - b.stop ∧
      b₁.contiguousEmptySize = b.start - 1 := by
  have h₁ := b.start_lt
  have h₂ := b.stop_lt
  have hstop := hb₁.stop_eq
  simp only [contiguousEmptySize, size, hb₁.start_eq, hb₁.capacity_eq,
    List.length_take] at hroom hstop hlong ⊢
  split_ifs at * <;> omega

/-- The assertion in between fails exactly on the copies that wrap around and leave no room. -/
theorem append_isSome_iff {src : List α} (hroom : src.length + b.size + 1 ≤ b.capacity) :
    (b.append src).isSome ↔
      ¬(1 < b.start ∧ b.start ≤ b.stop ∧ src.length + b.size + 1 = b.capacity) := by
  have h₁ := b.start_lt
  have h₂ := b.stop_lt
  obtain ⟨b₁, hb₁, happend⟩ := b.append_pieces src
  rw [happend]
  by_cases hrest : src.length ≤ b.contiguousEmptySize
  · rw [if_pos hrest]
    simp only [contiguousEmptySize, size] at hrest ⊢
    refine ⟨fun _ => ?_, fun _ => rfl⟩
    split_ifs at hrest ⊢ <;> omega
  · obtain ⟨hstart, hle, hces, hfront⟩ :=
      b.contiguousEmptySize_rest hb₁ hroom (Nat.lt_of_not_le hrest)
    have hsize : b.size = b.stop - b.start := if_pos hle
    rw [if_neg hrest]
    by_cases hleft : (src.drop b.contiguousEmptySize).length < b₁.contiguousEmptySize
    · obtain ⟨b₂, hb₂, -⟩ := b₁.dataAdded_stores hleft.le
      rw [if_pos hleft, hb₂]
      rw [List.length_drop] at hleft
      refine ⟨fun _ => ?_, fun _ => rfl⟩
      omega
    · rw [if_neg hleft]
      rw [List.length_drop] at hleft
      refine ⟨fun h => (Bool.noConfusion h), fun h => absurd ⟨hstart, hle, ?_⟩ h⟩
      omega

/-! ## Buffers of up to `2 ^ 31` elements -/

variable {b} (hcap : b.capacity ≤ 2 ^ 31)

include hcap

theorem get_eq {i : Nat} (hi : i < b.capacity) : b.get i = b.data (b.slot i) := by
  have h₁ := b.start_lt
  rw [get, b.position_eq hi (by omega)]

/-- **Consuming takes the oldest elements.** -/
theorem contents_consume {k : Nat} (hk : k ≤ b.size) :
    (b.consume k).contents = b.contents.drop k := by
  have hlt := b.size_lt
  have h₁ := b.start_lt
  have hsize := b.size_consume hk (by omega)
  apply List.ext_getElem
  · simp [hsize]
  · intro i hi _
    rw [length_contents, hsize] at hi
    have hstart : (b.consume k).start = b.slot k := b.position_eq (by omega) (by omega)
    simp only [contents, List.getElem_map, List.getElem_range, List.getElem_drop]
    rw [get_eq (b := b.consume k) hcap (show i < b.capacity by omega),
      get_eq hcap (i := k + i) (by omega)]
    change b.data _ = b.data _
    congr 1
    simp only [slot, hstart, show (b.consume k).capacity = b.capacity from rfl]
    split_ifs <;> omega

theorem contents_eq_stored : b.contents = b.stored := by
  have hlt := b.size_lt
  apply List.map_congr_left
  intro i hi
  rw [List.mem_range] at hi
  exact get_eq hcap (by omega)

/-- The buffer after `src` was copied and counted. -/
structure Extends (b b' : RingBuffer α) (src : List α) : Prop where
  contents_eq : b'.contents = b.contents ++ src
  capacity_eq : b'.capacity = b.capacity
  start_eq : b'.start = b.start
  stop_eq : b'.stop = if b.stop + src.length < b.capacity then b.stop + src.length else 0

/-- **Adding data appends it.** -/
theorem dataAdded_copyIn {src : List α} (hsrc : src.length ≤ b.contiguousEmptySize) :
    ∃ b', (b.copyIn src).dataAdded src.length = some b' ∧ Extends b b' src := by
  obtain ⟨b', hb', hstored⟩ := b.dataAdded_stores hsrc
  have hcap' : b'.capacity ≤ 2 ^ 31 := hstored.capacity_eq ▸ hcap
  refine ⟨b', hb', ?_, hstored.capacity_eq, hstored.start_eq, hstored.stop_eq⟩
  rw [contents_eq_stored hcap, contents_eq_stored hcap', hstored.stored_eq]

/-- A read takes what fits in one piece. -/
theorem read_eq (src : List α) :
    ∃ b', b.read src = some (b', src.drop b.contiguousEmptySize) ∧
      Extends b b' (src.take b.contiguousEmptySize) := by
  have hmin : src.take (min src.length b.contiguousEmptySize) = src.take b.contiguousEmptySize := by
    rw [Nat.min_comm, ← List.take_take, List.take_length]
  have hdrop : src.drop (min src.length b.contiguousEmptySize)
      = src.drop b.contiguousEmptySize := by
    rcases Nat.le_total src.length b.contiguousEmptySize with h | h
    · rw [Nat.min_eq_left h, List.drop_length, List.drop_of_length_le h]
    · rw [Nat.min_eq_right h]
  have hfit : (src.take b.contiguousEmptySize).length ≤ b.contiguousEmptySize := by simp
  obtain ⟨b', hb', hext⟩ := dataAdded_copyIn hcap hfit
  rw [List.length_take, Nat.min_comm] at hb'
  refine ⟨b', ?_, hext⟩
  simp only [read, hmin, hdrop, hb']
  rfl

/-- **What fits is received.** -/
theorem receive_eq {src : List α} (hroom : b.size + src.length < b.capacity) :
    ∃ b', b.receive src = some b' ∧ b'.contents = b.contents ++ src ∧
      b'.capacity = b.capacity := by
  obtain ⟨b₁, hb₁, hext₁⟩ := read_eq hcap src
  obtain ⟨b₂, hb₂, hext₂⟩ := read_eq (hext₁.capacity_eq ▸ hcap) (src.drop b.contiguousEmptySize)
  -- What the first read leaves fits before the start of the data.
  have hleft : (src.drop b.contiguousEmptySize).length ≤ b₁.contiguousEmptySize := by
    have h₁ := b.start_lt
    have h₂ := b.stop_lt
    have hstop := hext₁.stop_eq
    simp only [contiguousEmptySize, size, hext₁.start_eq, hext₁.capacity_eq, List.length_drop,
      List.length_take] at hroom hstop ⊢
    split_ifs at * <;> omega
  refine ⟨b₂, ?_, ?_, hext₂.capacity_eq.trans hext₁.capacity_eq⟩
  · simp only [receive, hb₁, hb₂, Option.bind_eq_bind, Option.bind_some]
    rfl
  · rw [hext₂.contents_eq, List.take_of_length_le hleft, hext₁.contents_eq, List.append_assoc,
      List.take_append_drop]

/-- **What `append` takes is appended.** -/
theorem contents_append {src : List α} {b' : RingBuffer α} (h : b.append src = some b') :
    b'.contents = b.contents ++ src ∧ b'.capacity = b.capacity := by
  obtain ⟨hstored, hcapacity⟩ := b.stored_append h
  have hcap' : b'.capacity ≤ 2 ^ 31 := hcapacity ▸ hcap
  refine ⟨?_, hcapacity⟩
  rw [contents_eq_stored hcap, contents_eq_stored hcap', hstored]

/-- **`append` takes what leaves room for one more element.** -/
theorem append_eq {src : List α} (hroom : b.size + src.length + 1 < b.capacity) :
    ∃ b', b.append src = some b' ∧ b'.contents = b.contents ++ src ∧
      b'.capacity = b.capacity := by
  have hfits : (b.append src).isSome := (b.append_isSome_iff (by omega)).mpr (by omega)
  obtain ⟨b', hb'⟩ := Option.isSome_iff_exists.mp hfits
  exact ⟨b', hb', contents_append hcap hb'⟩

/-- A buffer that was written out is empty. -/
theorem size_writeOut : b.writeOut.size = 0 := by
  have h₁ := b.start_lt
  have h₂ := b.stop_lt
  have hstart (c : RingBuffer α) (k : Nat) (hc : c.capacity = b.capacity) (hk : k < b.capacity) :
      (c.consume k).start = c.slot k := by
    have := c.start_lt
    exact c.position_eq (by omega) (by omega)
  have hdata : b.contiguousDataSize < b.capacity := by
    rw [contiguousDataSize]
    split_ifs <;> omega
  have hfirst := hstart b _ rfl hdata
  -- The first piece ends at the end of the data or of the array.
  have hpiece : (b.consume b.contiguousDataSize).start = if b.start ≤ b.stop then b.stop else 0 := by
    rw [hfirst, slot, contiguousDataSize]
    split_ifs <;> omega
  have hsecond : (b.consume b.contiguousDataSize).contiguousDataSize
      = if b.start ≤ b.stop then 0 else b.stop := by
    rw [contiguousDataSize, hpiece]
    simp only [show (b.consume b.contiguousDataSize).stop = b.stop from rfl]
    split_ifs <;> omega
  have hall : b.writeOut.start = b.stop := by
    have hlast := hstart (b.consume b.contiguousDataSize)
      (b.consume b.contiguousDataSize).contiguousDataSize rfl
      (by rw [hsecond]; split_ifs <;> omega)
    rw [writeOut, hlast, slot, hpiece, hsecond]
    simp only [show (b.consume b.contiguousDataSize).capacity = b.capacity from rfl]
    split_ifs <;> omega
  rw [size, hall, show b.writeOut.stop = b.stop from rfl, if_pos le_rfl, Nat.sub_self]

end RingBuffer

end SpikeSim.Gdb
