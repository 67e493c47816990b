/-
# Cutting a stream into frames

A framer looks at the bytes that have arrived and either waits or takes a first
frame off the front.  What it decides may only depend on the bytes up to the end of the
frame: bytes that arrive later change nothing.  Under that condition the frames of a
stream do not depend on how the stream arrives.
-/

import Mathlib.Data.List.Basic

namespace SpikeSim

variable {β α : Type}

/-- Takes frames off the front of a stream. -/
structure Framer (β α : Type) where
  /-- The first frame and its length, or nothing yet. -/
  next : List β → Option (α × Nat)
  pos : ∀ {s a k}, next s = some (a, k) → 0 < k
  le : ∀ {s a k}, next s = some (a, k) → k ≤ s.length
  append : ∀ {s a k} (t : List β), next s = some (a, k) → next (s ++ t) = some (a, k)

namespace Framer

variable (F : Framer β α)

/-- The frames of a stream, and what is left of it. -/
def frames (s : List β) : List α × List β :=
  match _h : F.next s with
  | none => ([], s)
  | some (a, k) =>
      let r := frames (s.drop k)
      (a :: r.1, r.2)
termination_by s.length
decreasing_by
  have := F.pos _h
  have := F.le _h
  simp only [List.length_drop]
  omega

variable {F}

theorem frames_of_none {s : List β} (h : F.next s = none) : F.frames s = ([], s) := by
  rw [frames]
  split
  · rfl
  · simp_all

theorem frames_of_some {s : List β} {a : α} {k : Nat} (h : F.next s = some (a, k)) :
    F.frames s = (a :: (F.frames (s.drop k)).1, (F.frames (s.drop k)).2) := by
  rw [frames]
  split
  · simp_all
  · next h' =>
      obtain ⟨rfl, rfl⟩ : _ = a ∧ _ = k := by simpa [h] using h'.symm
      rfl

/-- Induction along the frames of a stream. -/
theorem induction {motive : List β → Prop}
    (wait : ∀ s, F.next s = none → motive s)
    (frame : ∀ s a k, F.next s = some (a, k) → motive (s.drop k) → motive s) :
    ∀ s, motive s := by
  intro s
  induction hn : s.length using Nat.strongRecOn generalizing s with
  | ind n ih =>
    cases h : F.next s with
    | none => exact wait s h
    | some r =>
        obtain ⟨a, k⟩ := r
        have hk := F.pos h
        have hle := F.le h
        apply frame s a k h
        apply ih (s.drop k).length _ _ rfl
        simp only [List.length_drop]
        omega

/-- Nothing can be taken off what is left. -/
theorem next_rest (s : List β) : F.next (F.frames s).2 = none := by
  induction s using F.induction with
  | wait s h => rw [frames_of_none h]; exact h
  | frame s a k h ih => rw [frames_of_some h]; exact ih

/-- **The frames of a stream can be taken as it arrives.** -/
theorem frames_append (s t : List β) :
    F.frames (s ++ t) =
      ((F.frames s).1 ++ (F.frames ((F.frames s).2 ++ t)).1,
        (F.frames ((F.frames s).2 ++ t)).2) := by
  induction s using F.induction with
  | wait s h => simp [frames_of_none h]
  | frame s a k h ih =>
      have hdrop : (s ++ t).drop k = s.drop k ++ t := List.drop_append_of_le_length (F.le h)
      rw [frames_of_some (F.append t h), frames_of_some h, hdrop, ih]
      simp

/-- If every frame stands for the bytes it takes, nothing is lost. -/
theorem flatMap_frames {bytes : α → List β}
    (hbytes : ∀ {s a k}, F.next s = some (a, k) → bytes a = s.take k) (s : List β) :
    (F.frames s).1.flatMap bytes ++ (F.frames s).2 = s := by
  induction s using F.induction with
  | wait s h => simp [frames_of_none h]
  | frame s a k h ih =>
      rw [frames_of_some h]
      simp only [List.flatMap_cons, hbytes h, List.append_assoc, ih]
      exact List.take_append_drop k s

end Framer

end SpikeSim
