/-
# Cutting a number into fields

A number is cut into fields of given widths from its lowest bit on, and fields are put
together again.  Cutting and joining are inverse to each other on fields that fit.
-/

import Mathlib

namespace SpikeSim.Slices

/-- The fields of a number, the lowest first.  What is above the last field is dropped. -/
def cut : List ℕ → ℕ → List ℕ
  | [], _ => []
  | w :: ws, n => n % 2 ^ w :: cut ws (n / 2 ^ w)

/-- The number with the given fields. -/
def join : List ℕ → List ℕ → ℕ
  | w :: ws, x :: xs => x + 2 ^ w * join ws xs
  | _, _ => 0

/-- Every field fits its width. -/
abbrev Fits (ws xs : List ℕ) : Prop := List.Forall₂ (fun w x => x < 2 ^ w) ws xs

theorem fits_cut (ws : List ℕ) (n : ℕ) : Fits ws (cut ws n) := by
  induction ws generalizing n with
  | nil => exact .nil
  | cons w ws ih => exact .cons (Nat.mod_lt _ (Nat.two_pow_pos w)) (ih _)

/-- The fields determine what they were cut from. -/
theorem join_cut (ws : List ℕ) (n : ℕ) : join ws (cut ws n) = n % 2 ^ ws.sum := by
  induction ws generalizing n with
  | nil => exact (Nat.mod_one n).symm
  | cons w ws ih => rw [cut, join, ih, List.sum_cons, pow_add, Nat.mod_mul]

theorem cut_join {ws xs : List ℕ} (h : Fits ws xs) : cut ws (join ws xs) = xs := by
  induction h with
  | nil => rfl
  | @cons w x ws xs hx _ ih =>
      have hlow : (x + 2 ^ w * join ws xs) % 2 ^ w = x := by
        rw [Nat.add_mul_mod_self_left, Nat.mod_eq_of_lt hx]
      have hhigh : (x + 2 ^ w * join ws xs) / 2 ^ w = join ws xs := by
        rw [Nat.add_mul_div_left _ _ (Nat.two_pow_pos w), Nat.div_eq_of_lt hx, zero_add]
      rw [join, cut, hlow, hhigh, ih]

theorem join_lt {ws xs : List ℕ} (h : Fits ws xs) : join ws xs < 2 ^ ws.sum := by
  rw [← cut_join h, join_cut]
  exact Nat.mod_lt _ (Nat.two_pow_pos _)

/-- Two numbers have the same fields iff they agree as far as the fields reach. -/
theorem cut_eq_cut_iff (ws : List ℕ) (m n : ℕ) :
    cut ws m = cut ws n ↔ m % 2 ^ ws.sum = n % 2 ^ ws.sum := by
  constructor
  · intro h
    rw [← join_cut, ← join_cut, h]
  · intro h
    rw [← cut_join (fits_cut ws m), ← cut_join (fits_cut ws n), join_cut, join_cut, h]

end SpikeSim.Slices
