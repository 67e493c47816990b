/-
# Complete binary trees in heap order

Node `1` is the root and the children of node `n` are `2 * n` and `2 * n + 1`,
so the ancestor of `n` that lies `k` levels above it is `n / 2 ^ k`.  A tree of
height `h` has its leaves at `2 ^ h .. 2 ^ (h + 1) - 1`, and the path from a
leaf to the root visits one node on every level.
-/

import Mathlib

namespace SpikeSim.HeapTree

/-- `node` is an ancestor of `leaf`, or `leaf` itself. -/
def IsAncestor (node leaf : Nat) : Prop :=
  ∃ k, node = leaf / 2 ^ k

/-- The nodes that a tree of height `height` keeps on level `height`. -/
def IsLeafOf (height leaf : Nat) : Prop :=
  2 ^ height ≤ leaf ∧ leaf < 2 ^ (height + 1)

/-- The node on level `level` of the path from the root to `leaf`. -/
def pathNode (height leaf level : Nat) : Nat :=
  leaf / 2 ^ (height - level)

theorem isAncestor_pathNode (height leaf level : Nat) :
    IsAncestor (pathNode height leaf level) leaf :=
  ⟨height - level, rfl⟩

/-- The `k`-th ancestor of a leaf lies on level `height - k`. -/
theorem IsLeafOf.div_bounds {height leaf k : Nat} (hleaf : IsLeafOf height leaf)
    (hk : k ≤ height) :
    2 ^ (height - k) ≤ leaf / 2 ^ k ∧ leaf / 2 ^ k < 2 ^ (height - k + 1) := by
  have hsplit : 2 ^ (height - k) * 2 ^ k = 2 ^ height := by
    rw [← pow_add]; congr 1; omega
  have hsplit' : 2 ^ (height - k + 1) * 2 ^ k = 2 ^ (height + 1) := by
    rw [← pow_add]; congr 1; omega
  constructor
  · rw [Nat.le_div_iff_mul_le (by positivity), hsplit]
    exact hleaf.1
  · rw [Nat.div_lt_iff_lt_mul (by positivity), hsplit']
    exact hleaf.2

theorem IsLeafOf.pathNode_bounds {height leaf level : Nat} (hleaf : IsLeafOf height leaf)
    (hlevel : level ≤ height) :
    2 ^ level ≤ pathNode height leaf level ∧
      pathNode height leaf level < 2 ^ (level + 1) := by
  have h := hleaf.div_bounds (k := height - level) (by omega)
  rwa [Nat.sub_sub_self hlevel] at h

/-- A path visits every level once. -/
theorem IsLeafOf.pathNode_inj {height leaf first second : Nat}
    (hleaf : IsLeafOf height leaf) (hfirst : first ≤ height) (hsecond : second ≤ height)
    (heq : pathNode height leaf first = pathNode height leaf second) : first = second := by
  have h₁ := hleaf.pathNode_bounds hfirst
  have h₂ := hleaf.pathNode_bounds hsecond
  rw [heq] at h₁
  have hlt : first < second + 1 :=
    (Nat.pow_lt_pow_iff_right (by norm_num)).mp (h₁.1.trans_lt h₂.2)
  have hgt : second < first + 1 :=
    (Nat.pow_lt_pow_iff_right (by norm_num)).mp (h₂.1.trans_lt h₁.2)
  omega

/-- A proper ancestor chain inside the tree is the leaf's path. -/
theorem IsLeafOf.exists_level {height leaf node : Nat} (hleaf : IsLeafOf height leaf)
    (hnode : 1 ≤ node) (hanc : IsAncestor node leaf) :
    ∃ level ≤ height, node = pathNode height leaf level := by
  obtain ⟨k, rfl⟩ := hanc
  have hk : k ≤ height := by
    by_contra hlt
    have : leaf / 2 ^ k = 0 :=
      Nat.div_eq_of_lt (hleaf.2.trans_le (Nat.pow_le_pow_right (by norm_num) (by omega)))
    omega
  exact ⟨height - k, by omega, by rw [pathNode, Nat.sub_sub_self hk]⟩

theorem pathNode_self (height leaf : Nat) : pathNode height leaf height = leaf := by
  simp [pathNode]

/-- Two leaves that share a node on some level share every node above it. -/
theorem pathNode_eq_of_le {height first second level above : Nat} (hlevel : level ≤ height)
    (habove : above ≤ level)
    (heq : pathNode height first level = pathNode height second level) :
    pathNode height first above = pathNode height second above := by
  have hsplit : height - above = (height - level) + (level - above) := by omega
  simp only [pathNode] at heq ⊢
  rw [hsplit, pow_add, ← Nat.div_div_eq_div_mul, ← Nat.div_div_eq_div_mul, heq]

end SpikeSim.HeapTree
