/-
# Lists searched by first match

A list is searched for its first element that satisfies a test.  Reordering the
list keeps the answer of every search as long as no two elements that some test
accepts change their order.  Moving an element to the front is such a
reordering when the element meets nothing before it.

The elements carry a key, and equal keys stand together (`Grouped`).  An element
whose two neighbours have other keys then has a key of its own.
-/

import Mathlib

namespace SpikeSim.PriorityList

variable {α κ : Type*}

/-! ## Reordering -/

/-- Two orders of one list give the same first match when, among the elements
that the test accepts, both are ordered by one antisymmetric relation. -/
theorem find?_eq_of_perm {r : α → α → Prop} [Std.Antisymm r] {test : α → Bool}
    {l l' : List α} (hperm : l.Perm l')
    (hl : l.Pairwise fun a b => test a → test b → r a b)
    (hl' : l'.Pairwise fun a b => test a → test b → r a b) :
    l.find? test = l'.find? test := by
  have hfilter : ∀ {l : List α}, (l.Pairwise fun a b => test a → test b → r a b) →
      (l.filter test).Pairwise r := by
    intro l hl
    rw [List.pairwise_filter]
    exact hl.imp fun h ha hb => h ha hb
  rw [← List.head?_filter, ← List.head?_filter,
    (hperm.filter test).eq_of_pairwise' (hfilter hl) (hfilter hl')]

/-- An element may go to the front when it may stand before all it passes. -/
theorem pairwise_moveToFront {R : α → α → Prop} {pre post : List α} {e : α}
    (hl : (pre ++ e :: post).Pairwise R) (hpass : ∀ a ∈ pre, R e a) :
    (e :: (pre ++ post)).Pairwise R := by
  rw [List.pairwise_append, List.pairwise_cons] at hl
  obtain ⟨hpre, ⟨hpost, hrest⟩, hcross⟩ := hl
  refine List.pairwise_cons.mpr ⟨fun a ha => ?_, List.pairwise_append.mpr
    ⟨hpre, hrest, fun a ha b hb => hcross a ha b (List.mem_cons_of_mem e hb)⟩⟩
  rcases List.mem_append.mp ha with ha | ha
  · exact hpass a ha
  · exact hpost a ha

/-! ## Groups of equal keys -/

/-- Elements with equal keys have only elements with that key between them. -/
def Grouped (key : α → κ) (l : List α) : Prop :=
  ∀ a m b, List.Sublist [a, m, b] l → key a = key b → key m = key a

variable {key : α → κ}

/-- A list sorted by its keys is grouped. -/
theorem grouped_of_pairwise {r : κ → κ → Prop} [Std.Antisymm r] {l : List α}
    (hl : l.Pairwise fun a b => r (key a) (key b)) : Grouped key l := by
  intro a m b hsub heq
  have htriple := hl.sublist hsub
  simp only [List.pairwise_cons, List.mem_cons, List.not_mem_nil, or_false] at htriple
  exact Std.Antisymm.antisymm _ _ (heq ▸ htriple.2.1 b rfl) (htriple.1 m (.inl rfl))

section Front

variable {pre post : List α} {e : α} (hgroup : Grouped key (pre ++ e :: post))

include hgroup

/-- If the next element has another key, so have all later ones. -/
theorem Grouped.ne_of_mem_post (hnext : ∀ n ∈ post.head?, key e ≠ key n) :
    ∀ b ∈ post, key e ≠ key b := by
  intro b hb heq
  cases post with
  | nil => cases hb
  | cons n rest =>
      rcases List.mem_cons.mp hb with rfl | hb
      · exact hnext b rfl heq
      · have hsub : List.Sublist [e, n, b] (pre ++ e :: n :: rest) :=
          (((List.singleton_sublist.mpr hb).cons_cons n).cons_cons e).trans
            (List.sublist_append_right pre _)
        exact hnext n rfl (hgroup e n b hsub heq).symm

/-- If the previous element has another key, so have all earlier ones. -/
theorem Grouped.ne_of_mem_pre (hprev : ∀ p ∈ pre.getLast?, key e ≠ key p) :
    ∀ a ∈ pre, key e ≠ key a := by
  intro a ha heq
  rcases List.eq_nil_or_concat pre with rfl | ⟨rest, p, rfl⟩
  · cases ha
  · rw [List.concat_eq_append] at ha hprev hgroup
    rcases List.mem_append.mp ha with ha | ha
    · have hsub : List.Sublist [a, p, e] (rest ++ [p] ++ e :: post) := by
        rw [List.append_assoc]
        exact (List.singleton_sublist.mpr ha).append
          (((List.nil_sublist post).cons_cons e).cons_cons p)
      exact hprev p (by simp) (by rw [hgroup a p e hsub heq.symm, heq])
    · rw [List.mem_singleton] at ha
      exact hprev a (by simp [ha]) heq

/-- Moving an element with a key of its own keeps the groups together. -/
theorem Grouped.moveToFront (hpre : ∀ a ∈ pre, key e ≠ key a) (hpost : ∀ b ∈ post, key e ≠ key b) :
    Grouped key (e :: (pre ++ post)) := by
  intro a m b hsub heq
  rcases List.cons_sublist_cons'.mp hsub with hrest | ⟨rfl, hrest⟩
  · exact hgroup a m b (hrest.trans ((List.sublist_cons_self e post).append_left pre)) heq
  · have hb : b ∈ pre ++ post := hrest.subset (by simp)
    rcases List.mem_append.mp hb with hb | hb
    · exact absurd heq (hpre b hb)
    · exact absurd heq (hpost b hb)

end Front

end SpikeSim.PriorityList
