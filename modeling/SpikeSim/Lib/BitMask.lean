/-
# Agreement of words under a mask

Two words agree on a mask when they have the same bits there.  Registers with
fields are written by masks, and what such a write leaves alone is a matter of
masks that do not meet.
-/

import Mathlib

namespace SpikeSim

variable {w : Nat} {mask keep field a b c : BitVec w}

/-- The two words have the same bits where the mask is set. -/
def AgreeOn (mask a b : BitVec w) : Prop := a &&& mask = b &&& mask

instance : Decidable (AgreeOn mask a b) := inferInstanceAs (Decidable (_ = _))

theorem agreeOn_iff :
    AgreeOn mask a b ↔ ∀ i < w, mask.getLsbD i = true → a.getLsbD i = b.getLsbD i := by
  unfold AgreeOn
  constructor
  · intro h i hi hmask
    have hbit := congrArg (fun v => v.getLsbD i) h
    simpa [BitVec.getLsbD_and, hmask] using hbit
  · intro h
    refine BitVec.eq_of_getLsbD_eq fun i hi => ?_
    rw [BitVec.getLsbD_and, BitVec.getLsbD_and]
    cases hmask : mask.getLsbD i with
    | false => simp
    | true => rw [h i hi hmask]

@[refl]
theorem AgreeOn.refl (mask a : BitVec w) : AgreeOn mask a a := rfl

theorem AgreeOn.symm (h : AgreeOn mask a b) : AgreeOn mask b a := Eq.symm h

theorem AgreeOn.trans (hab : AgreeOn mask a b) (hbc : AgreeOn mask b c) : AgreeOn mask a c :=
  Eq.trans hab hbc

/-! ## Inclusion of masks -/

/-- The bits of the first mask are bits of the second. -/
def SubMask (a b : BitVec w) : Prop := a &&& b = a

instance : Decidable (SubMask a b) := inferInstanceAs (Decidable (_ = _))

theorem subMask_iff : SubMask a b ↔ ∀ i < w, a.getLsbD i = true → b.getLsbD i = true := by
  unfold SubMask
  constructor
  · intro h i _ ha
    have hbit := congrArg (fun v => v.getLsbD i) h
    simpa [BitVec.getLsbD_and, ha] using hbit
  · intro h
    refine BitVec.eq_of_getLsbD_eq fun i hi => ?_
    rw [BitVec.getLsbD_and]
    cases ha : a.getLsbD i with
    | false => rfl
    | true => simp [h i hi ha]

theorem SubMask.refl (a : BitVec w) : SubMask a a := BitVec.and_self

theorem SubMask.or_left (a b : BitVec w) : SubMask a (a ||| b) := by
  rw [subMask_iff]
  intro i _ ha
  simp [BitVec.getLsbD_or, ha]

theorem SubMask.or_right (a b : BitVec w) : SubMask b (a ||| b) := by
  rw [subMask_iff]
  intro i _ hb
  simp [BitVec.getLsbD_or, hb]

theorem SubMask.and_left (a b : BitVec w) : SubMask (a &&& b) a := by
  unfold SubMask
  rw [BitVec.and_comm, ← BitVec.and_assoc, BitVec.and_self]

theorem SubMask.and_right (a b : BitVec w) : SubMask (a &&& b) b := by
  unfold SubMask
  rw [BitVec.and_assoc, BitVec.and_self]

theorem SubMask.trans (hab : SubMask a b) (hbc : SubMask b c) : SubMask a c := by
  rw [subMask_iff] at *
  exact fun i hi ha => hbc i hi (hab i hi ha)

theorem SubMask.and (hab : SubMask a b) (hac : SubMask a c) : SubMask a (b &&& c) := by
  unfold SubMask at *
  rw [← BitVec.and_assoc, hab, hac]

theorem SubMask.or_eq_left (hab : SubMask a b) : b ||| a = b := by
  refine BitVec.eq_of_getLsbD_eq fun i hi => ?_
  rw [subMask_iff] at hab
  rw [BitVec.getLsbD_or]
  cases ha : a.getLsbD i with
  | false => simp
  | true => simp [hab i hi ha]

theorem SubMask.not (hab : SubMask a b) : SubMask (~~~b) (~~~a) := by
  rw [subMask_iff] at *
  intro i hi hb
  rw [BitVec.getLsbD_not] at hb ⊢
  cases ha : a.getLsbD i with
  | false => simp [hi]
  | true => simp [hab i hi ha] at hb

theorem SubMask.or (hac : SubMask a c) (hbc : SubMask b c) : SubMask (a ||| b) c := by
  rw [subMask_iff] at *
  intro i hi h
  rw [BitVec.getLsbD_or, Bool.or_eq_true] at h
  rcases h with ha | hb
  · exact hac i hi ha
  · exact hbc i hi hb

/-- Agreement on a mask is agreement on a smaller one. -/
theorem AgreeOn.mono (h : AgreeOn mask a b) (hsub : SubMask keep mask) : AgreeOn keep a b := by
  unfold AgreeOn at h ⊢
  rw [← hsub, BitVec.and_comm keep, ← BitVec.and_assoc, ← BitVec.and_assoc, h]

/-- Agreement outside of a mask is agreement outside of a larger one. -/
theorem AgreeOn.outside_mono (h : AgreeOn (~~~field) a b) (hsub : SubMask field mask) :
    AgreeOn (~~~mask) a b :=
  h.mono hsub.not

/-! ## Writes -/

/-- Setting bits inside a mask. -/
theorem AgreeOn.or (hsub : SubMask b mask) : AgreeOn (~~~mask) (a ||| b) a := by
  rw [agreeOn_iff]
  rw [subMask_iff] at hsub
  intro i hi hmask
  rw [BitVec.getLsbD_not] at hmask
  rw [BitVec.getLsbD_or]
  cases hb : b.getLsbD i with
  | false => simp
  | true => simp [hsub i hi hb] at hmask

/-- A write under the mask `field` with a value that agrees where both masks are
set. -/
theorem AgreeOn.write (h : AgreeOn (keep &&& field) b a) :
    AgreeOn keep ((a &&& ~~~field) ||| (b &&& field)) a := by
  rw [agreeOn_iff] at h ⊢
  intro i hi hkeep
  rw [BitVec.getLsbD_or, BitVec.getLsbD_and, BitVec.getLsbD_and, BitVec.getLsbD_not]
  cases hfield : field.getLsbD i with
  | false => simp [hi]
  | true =>
      have hbit : b.getLsbD i = a.getLsbD i := h i hi (by
        rw [BitVec.getLsbD_and, hkeep, hfield]
        rfl)
      simp [hbit]

/-- A write under a mask brings the bits of the value. -/
theorem AgreeOn.write_inside (hsub : SubMask keep field) :
    AgreeOn keep ((a &&& ~~~field) ||| (b &&& field)) b := by
  rw [subMask_iff] at hsub
  rw [agreeOn_iff]
  intro i hi hkeep
  simp [BitVec.getLsbD_or, BitVec.getLsbD_and, BitVec.getLsbD_not, hsub i hi hkeep]

/-- A write under a mask leaves what is outside of a larger one. -/
theorem AgreeOn.write_outside (hsub : SubMask field mask) :
    AgreeOn (~~~mask) ((a &&& ~~~field) ||| (b &&& field)) a := by
  have hfield : AgreeOn (~~~field) ((a &&& ~~~field) ||| (b &&& field)) a := by
    refine AgreeOn.write ?_
    unfold AgreeOn
    rw [BitVec.and_comm (~~~field)]
    simp
  exact hfield.outside_mono hsub

end SpikeSim
