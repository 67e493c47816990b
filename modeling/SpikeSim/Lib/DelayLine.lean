/-
# Delay lines

Items wait in line, each with a countdown of its own, and go out one after the other, each for
`burst` cycles.  If every item that is put in line waits `burst` cycles longer than the one
before it, then no item is ready while another is still going out, and none is lost.  `Clear`
says from when on an item may be put in line.
-/

import Mathlib

namespace SpikeSim

/-- `left` is the number of cycles for which the outgoing item still goes out. -/
structure DelayLine (α : Type) where
  waiting : List (α × ℕ)
  outgoing : Option α
  left : ℕ

namespace DelayLine

variable {α : Type} {burst longest delay start stop : ℕ} {line : DelayLine α} {x : α}

def items (line : DelayLine α) : List α := line.outgoing.toList ++ line.waiting.map Prod.fst

def push (x : α) (delay : ℕ) (line : DelayLine α) : DelayLine α :=
  { line with waiting := line.waiting ++ [(x, delay)] }

/-- The outgoing item moves on; it is returned when it is through. -/
def send (line : DelayLine α) : Option α × DelayLine α :=
  match line.outgoing with
  | none => (none, line)
  | some x =>
    if line.left - 1 = 0 then (some x, { line with outgoing := none, left := 0 })
    else (none, { line with left := line.left - 1 })

def count (line : DelayLine α) : DelayLine α :=
  { line with waiting := line.waiting.map fun entry => (entry.1, entry.2 - 1) }

/-- An item whose time has come goes out. -/
def launch (burst : ℕ) (line : DelayLine α) : DelayLine α :=
  match line.waiting with
  | [] => line
  | entry :: rest => if entry.2 = 0 then ⟨rest, some entry.1, burst⟩ else line

/-- A cycle. -/
def step (burst : ℕ) (line : DelayLine α) : Option α × DelayLine α :=
  (line.send.1, line.send.2.count.launch burst)

/-- Every item waits `burst` cycles longer than the one before it, and nothing waits longer than
`longest`. -/
structure Spaced (burst longest : ℕ) (line : DelayLine α) : Prop where
  apart : line.waiting.Pairwise fun x y => x.2 + burst ≤ y.2
  waits : ∀ entry ∈ line.waiting, 0 < entry.2 ∧ entry.2 ≤ longest
  sending : line.outgoing.isSome → 0 < line.left ∧ line.left ≤ burst ∧
    ∀ entry ∈ line.waiting, line.left ≤ entry.2

/-- At `start`, an item that is to be ready at `stop` meets no other. -/
structure Clear (burst start stop : ℕ) (line : DelayLine α) : Prop where
  waiting : ∀ entry ∈ line.waiting, start + entry.2 + burst ≤ stop
  outgoing : line.outgoing.isSome → start + line.left ≤ stop

theorem spaced_nil : Spaced burst longest (⟨[], none, 0⟩ : DelayLine α) :=
  ⟨.nil, by simp, by simp⟩

theorem clear_nil : Clear burst start stop (⟨[], none, 0⟩ : DelayLine α) := ⟨by simp, by simp⟩

@[simp]
theorem waiting_send : line.send.2.waiting = line.waiting := by
  unfold send
  split
  · rfl
  · split <;> rfl

/-- What is still going out after a cycle has more than one cycle of it left. -/
theorem outgoing_send (h : line.send.2.outgoing.isSome) :
    line.outgoing.isSome ∧ 1 < line.left ∧ line.send.2.left = line.left - 1 := by
  unfold send at h ⊢
  cases hout : line.outgoing with
  | none =>
      rw [hout] at h
      dsimp only at h
      rw [hout] at h
      cases h
  | some y =>
      rw [hout] at h
      dsimp only at h ⊢
      by_cases hleft : line.left - 1 = 0
      · rw [if_pos hleft] at h
        cases h
      · rw [if_neg hleft]
        exact ⟨rfl, by omega, rfl⟩

/-- **No collision**: while an item is going out, no other becomes ready. -/
theorem Spaced.not_ready (h : Spaced burst longest line) (hout : line.send.2.outgoing.isSome)
    {entry : α × ℕ} (hentry : entry ∈ line.waiting) : entry.2 - 1 ≠ 0 := by
  obtain ⟨hsome, hleft, -⟩ := outgoing_send hout
  have := (h.sending hsome).2.2 entry hentry
  omega

theorem items_send (line : DelayLine α) : line.items = line.send.1.toList ++ line.send.2.items := by
  unfold send
  cases hout : line.outgoing with
  | none => rfl
  | some y =>
      dsimp only
      split <;> simp [items, hout]

@[simp]
theorem items_count (line : DelayLine α) : line.count.items = line.items := by
  simp [items, count]

theorem items_push (line : DelayLine α) : (line.push x delay).items = line.items ++ [x] := by
  simp [items, push]

/-- **Nothing is lost or duplicated** in a cycle. -/
theorem Spaced.items_step (h : Spaced burst longest line) :
    line.items = (line.step burst).1.toList ++ (line.step burst).2.items := by
  have hlaunch : (line.send.2.count.launch burst).items = line.send.2.items := by
    rw [← items_count line.send.2]
    unfold launch
    cases hwaiting : line.waiting with
    | nil => simp [count, hwaiting]
    | cons entry rest =>
        have hcount : line.send.2.count.waiting =
            (entry.1, entry.2 - 1) :: rest.map fun entry => (entry.1, entry.2 - 1) := by
          simp [count, hwaiting]
        rw [hcount]
        dsimp only
        split
        · rename_i hready
          cases hout : line.send.2.outgoing with
          | none => simp [items, count, hwaiting, hout]
          | some y =>
              have hentry : entry ∈ line.waiting := by rw [hwaiting]; exact List.mem_cons_self
              exact absurd hready (h.not_ready (by rw [hout]; rfl) hentry)
        · rfl
  rw [step, hlaunch]
  exact items_send line

/-- Until the first item is ready, a cycle only counts. -/
theorem Spaced.step (hburst : 0 < burst) (h : Spaced burst (longest + 1) line) :
    Spaced burst longest (line.step burst).2 := by
  have hapart : line.send.2.count.waiting.Pairwise fun x y => x.2 + burst ≤ y.2 := by
    rw [count, waiting_send, List.pairwise_map]
    refine h.apart.imp_of_mem fun {x y} hx hy hxy => ?_
    have := (h.waits x hx).1
    dsimp only
    omega
  unfold DelayLine.step launch
  cases hwaiting : line.waiting with
  | nil =>
      have hcount : line.send.2.count.waiting = [] := by simp [count, hwaiting]
      rw [hcount]
      refine ⟨hapart, ?_, fun hout => ?_⟩
      · rw [hcount]
        simp
      · obtain ⟨hsome, hleft, hnew⟩ := outgoing_send hout
        have := h.sending hsome
        refine ⟨?_, ?_, by rw [hcount]; simp⟩
        all_goals
          change _ ∧ _ at this
          simp only [count, hnew]
          omega
  | cons entry rest =>
      have hcount : line.send.2.count.waiting =
          (entry.1, entry.2 - 1) :: rest.map fun entry => (entry.1, entry.2 - 1) := by
        simp [count, hwaiting]
      have hmem {e : α × ℕ} (he : e ∈ entry :: rest) : e ∈ line.waiting := hwaiting ▸ he
      rw [hcount] at hapart ⊢
      dsimp only
      by_cases hready : entry.2 - 1 = 0
      · rw [if_pos hready]
        rw [List.pairwise_cons] at hapart
        refine ⟨hapart.2, fun e he => ?_, fun _ => ⟨hburst, le_rfl, fun e he => ?_⟩⟩
        · have hlater := hapart.1 e he
          obtain ⟨e', he', rfl⟩ := List.mem_map.mp he
          have := h.waits e' (hmem (List.mem_cons_of_mem _ he'))
          dsimp only at hlater ⊢
          omega
        · have hlater := hapart.1 e he
          dsimp only at hlater ⊢
          omega
      · rw [if_neg hready]
        refine ⟨by rwa [hcount], fun e he => ?_, fun hout => ?_⟩
        · rw [count, waiting_send] at he
          obtain ⟨e', he', rfl⟩ := List.mem_map.mp he
          have := h.waits e' he'
          rcases (List.mem_cons.mp (hwaiting ▸ he')) with rfl | hrest
          · dsimp only
            omega
          · have hfirst := h.apart
            rw [hwaiting, List.pairwise_cons] at hfirst
            have := hfirst.1 e' hrest
            dsimp only
            omega
        · obtain ⟨hsome, hleft, hnew⟩ := outgoing_send hout
          have hsending := h.sending hsome
          refine ⟨by simp only [count, hnew]; omega, by simp only [count, hnew]; omega, ?_⟩
          intro e he
          rw [count, waiting_send] at he
          obtain ⟨e', he', rfl⟩ := List.mem_map.mp he
          have := hsending.2.2 e' he'
          simp only [count, hnew]
          omega

theorem Spaced.mono (h : Spaced burst longest line) {longest' : ℕ} (hle : longest ≤ longest') :
    Spaced burst longest' line :=
  ⟨h.apart, fun entry he => ⟨(h.waits entry he).1, (h.waits entry he).2.trans hle⟩, h.sending⟩

theorem Clear.mono (h : Clear burst start stop line) {stop' : ℕ} (hle : stop ≤ stop') :
    Clear burst start stop' line :=
  ⟨fun entry he => (h.waiting entry he).trans hle, fun hout => (h.outgoing hout).trans hle⟩

/-- An item that is ready later than all others by a burst meets none of them. -/
theorem Spaced.clear (h : Spaced burst longest line) (hstop : start + longest + burst ≤ stop) :
    Clear burst start stop line := by
  refine ⟨fun entry he => ?_, fun hout => ?_⟩
  · have := (h.waits entry he).2
    omega
  · have := (h.sending hout).2.1
    omega

theorem Clear.step (hspaced : Spaced burst longest line) (h : Clear burst start stop line) :
    Clear burst (start + 1) stop (line.step burst).2 := by
  have hcount (entry : α × ℕ) (he : entry ∈ line.send.2.count.waiting) :
      start + 1 + entry.2 + burst ≤ stop := by
    rw [count, waiting_send] at he
    obtain ⟨e', he', rfl⟩ := List.mem_map.mp he
    have := h.waiting e' he'
    have := (hspaced.waits e' he').1
    dsimp only
    omega
  have hstill (hout : line.send.2.count.outgoing.isSome) :
      start + 1 + line.send.2.count.left ≤ stop := by
    obtain ⟨hsome, hleft, hnew⟩ := outgoing_send hout
    have := h.outgoing hsome
    simp only [count, hnew]
    omega
  unfold DelayLine.step launch
  cases hwaiting : line.send.2.count.waiting with
  | nil => exact ⟨hcount, hstill⟩
  | cons entry rest =>
      dsimp only
      split
      · refine ⟨fun e he => hcount e (hwaiting ▸ List.mem_cons_of_mem _ he), fun _ => ?_⟩
        have := hcount entry (hwaiting ▸ List.mem_cons_self)
        dsimp only
        omega
      · exact ⟨hcount, hstill⟩

/-- An item is put in line. -/
theorem Spaced.push (h : Spaced burst longest line) (hclear : Clear burst start stop line)
    (hdelay : 0 < delay) (hstop : stop = start + delay) {longest' : ℕ}
    (hlongest : longest ≤ longest') (hle : delay ≤ longest') :
    Spaced burst longest' (line.push x delay) := by
  refine ⟨?_, fun entry he => ?_, fun hout => ?_⟩
  · rw [DelayLine.push, List.pairwise_append]
    refine ⟨h.apart, List.pairwise_singleton _ _, fun entry he y hy => ?_⟩
    obtain rfl := List.mem_singleton.mp hy
    have := hclear.waiting entry he
    dsimp only
    omega
  · rcases List.mem_append.mp he with he | he
    · exact ⟨(h.waits entry he).1, (h.waits entry he).2.trans hlongest⟩
    · obtain rfl := List.mem_singleton.mp he
      exact ⟨hdelay, hle⟩
  · obtain ⟨hpos, hburst, hfirst⟩ := h.sending hout
    refine ⟨hpos, hburst, fun entry he => ?_⟩
    rcases List.mem_append.mp he with he | he
    · exact hfirst entry he
    · obtain rfl := List.mem_singleton.mp he
      have := hclear.outgoing hout
      dsimp only [DelayLine.push]
      omega

theorem Clear.push (h : Clear burst start stop line) (hstop : start + delay + burst ≤ stop) :
    Clear burst start stop (line.push x delay) := by
  refine ⟨fun entry he => ?_, h.outgoing⟩
  rcases List.mem_append.mp he with he | he
  · exact h.waiting entry he
  · obtain rfl := List.mem_singleton.mp he
    exact hstop

theorem Spaced.of_push (h : Spaced burst longest (line.push x delay)) :
    Spaced burst longest line where
  apart := (List.pairwise_append.mp h.apart).1
  waits entry he := h.waits entry (List.mem_append_left _ he)
  sending hout := by
    obtain ⟨hpos, hburst, hfirst⟩ := h.sending hout
    exact ⟨hpos, hburst, fun entry he => hfirst entry (List.mem_append_left _ he)⟩

/-- It does not matter whether an item is put in line before or after a cycle. -/
theorem step_push (hdelay : 0 < delay) :
    (line.push x (delay + 1)).step burst =
      ((line.step burst).1, (line.step burst).2.push x delay) := by
  have hsend : (line.push x (delay + 1)).send = (line.send.1, line.send.2.push x (delay + 1)) := by
    obtain ⟨waiting, outgoing, left⟩ := line
    cases outgoing with
    | none => rfl
    | some y =>
        dsimp only [send, DelayLine.push]
        split <;> rfl
  have hcount (d : DelayLine α) : (d.push x (delay + 1)).count = d.count.push x delay := by
    simp [count, DelayLine.push]
  have hlaunch (d : DelayLine α) :
      (d.push x delay).launch burst = (d.launch burst).push x delay := by
    obtain ⟨waiting, outgoing, left⟩ := d
    cases waiting with
    | nil => exact if_neg hdelay.ne'
    | cons entry rest =>
        dsimp only [launch, DelayLine.push, List.cons_append]
        split <;> rfl
  rw [step, hsend, hcount, hlaunch]
  rfl

end DelayLine

end SpikeSim
