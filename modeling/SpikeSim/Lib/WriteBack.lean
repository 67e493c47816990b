/-
# Write-back caches

A cache seen from outside: a partial map from lines to dirty flags.  A hit
leaves the set of lines alone and a miss fills its line, possibly in the place
of a resident victim.  What a run did is recorded as a list of outcomes, and
what a cache contains is then a matter of that record: a line is resident when
it was accessed and has not been a victim since, and dirty when it was stored to
since its last fill.
-/

import Mathlib

namespace SpikeSim.WriteBack

/-- What one access did.  `victim` is the resident line that a miss replaced and
`wroteBack` tells whether that line went back to memory. -/
structure Outcome (L : Type) where
  line : L
  store : Bool
  miss : Bool
  victim : Option L
  wroteBack : Bool
  deriving DecidableEq, Repr

/-- The resident lines, each with its dirty flag. -/
abbrev Contents (L : Type) := L → Option Bool

variable {L : Type} [DecidableEq L]

/-- The contents without the victim, if there is one. -/
def evict (victim : Option L) (c : Contents L) : Contents L :=
  fun line => if victim = some line then none else c line

/-- One access to a write-back cache. -/
inductive Step (c : Contents L) : Outcome L → Contents L → Prop
  | hit {line : L} {store dirty : Bool} (resident : c line = some dirty) :
      Step c ⟨line, store, false, none, false⟩
        (Function.update c line (some (dirty || store)))
  | miss {line : L} {store : Bool} (absent : c line = none) (victim : Option L)
      (resident : ∀ v, victim = some v → c v ≠ none) :
      Step c ⟨line, store, true, victim, victim.bind c == some true⟩
        (Function.update (evict victim c) line (some store))

/-- The contents reached from the empty cache, with the record of the run, the
last access first. -/
inductive Reaches : List (Outcome L) → Contents L → Prop
  | start : Reaches [] fun _ => none
  | step {history : List (Outcome L)} {o : Outcome L} {c c' : Contents L}
      (prior : Reaches history c) (last : Step c o c') : Reaches (o :: history) c'

/-! ## Reading the record of a run -/

/-- The line was accessed and has not been chosen as a victim since. -/
def accessedSinceVictim (line : L) : List (Outcome L) → Bool
  | [] => false
  | o :: older =>
    if o.line = line then true
    else if o.victim = some line then false
    else accessedSinceVictim line older

/-- The line has been stored to since it was last filled. -/
def storedSinceFill (line : L) : List (Outcome L) → Bool
  | [] => false
  | o :: older =>
    if o.line = line then o.store || (!o.miss && storedSinceFill line older)
    else storedSinceFill line older

/-- How often the line has been written back since it was last filled. -/
def writeBacksSinceFill (line : L) : List (Outcome L) → Nat
  | [] => 0
  | o :: older =>
    if o.line = line ∧ o.miss = true then 0
    else (if o.victim = some line ∧ o.wroteBack = true then 1 else 0) +
      writeBacksSinceFill line older

variable {history : List (Outcome L)} {c : Contents L}

/-- A line is resident exactly when it was accessed and has not been a victim
since. -/
theorem Reaches.resident_iff (h : Reaches history c) (line : L) :
    (c line).isSome = accessedSinceVictim line history := by
  induction h with
  | start => rfl
  | step _ last ih =>
      cases last with
      | hit resident =>
          rename_i acc store dirty
          by_cases hline : acc = line
          · simp [accessedSinceVictim, hline]
          · simp [accessedSinceVictim, hline, Function.update_of_ne (Ne.symm hline), ih]
      | miss absent victim resident =>
          rename_i acc store
          by_cases hline : acc = line
          · simp [accessedSinceVictim, hline]
          · rw [Function.update_of_ne (Ne.symm hline), evict]
            by_cases hvictim : victim = some line
            · simp [accessedSinceVictim, hline, hvictim]
            · simp [accessedSinceVictim, hline, hvictim, ih]

/-- A resident line is dirty exactly when it was stored to since it was filled. -/
theorem Reaches.dirty_eq (h : Reaches history c) {line : L} {dirty : Bool}
    (hline : c line = some dirty) : dirty = storedSinceFill line history := by
  induction h generalizing dirty with
  | start => cases hline
  | step _ last ih =>
      cases last with
      | hit resident =>
          rename_i acc store old
          by_cases hacc : acc = line
          · subst hacc
            have hflag : (old || store) = dirty := by simpa using hline
            simp only [storedSinceFill, if_true, Bool.not_false, Bool.true_and]
            rw [← hflag, ih resident, Bool.or_comm]
          · rw [Function.update_of_ne (Ne.symm hacc)] at hline
            simp only [storedSinceFill, if_neg hacc]
            exact ih hline
      | miss absent victim resident =>
          rename_i acc store
          by_cases hacc : acc = line
          · subst hacc
            have hflag : store = dirty := by simpa using hline
            simp [storedSinceFill, hflag]
          · rw [Function.update_of_ne (Ne.symm hacc), evict] at hline
            split at hline
            · cases hline
            · simp only [storedSinceFill, if_neg hacc]
              exact ih hline

/-- A line goes back to memory when a dirty copy is replaced, and only then. -/
theorem Reaches.writeBacks_eq (h : Reaches history c) (line : L) :
    writeBacksSinceFill line history =
      if storedSinceFill line history = true ∧ c line = none then 1 else 0 := by
  induction h with
  | start => rfl
  | step prior last ih =>
      cases last with
      | hit resident =>
          rename_i acc store old
          by_cases hacc : acc = line
          · subst hacc
            rw [resident] at ih
            simpa [writeBacksSinceFill] using ih
          · simpa [writeBacksSinceFill, storedSinceFill, hacc,
              Function.update_of_ne (Ne.symm hacc)] using ih
      | miss absent victim resident =>
          rename_i acc store
          by_cases hacc : acc = line
          · simp [writeBacksSinceFill, hacc]
          · rw [Function.update_of_ne (Ne.symm hacc), evict]
            simp only [writeBacksSinceFill, storedSinceFill, hacc, false_and, if_false, ih]
            by_cases hvictim : victim = some line
            · obtain ⟨dirty, hdirty⟩ := Option.ne_none_iff_exists'.mp (resident line hvictim)
              have hstored := prior.dirty_eq hdirty
              simp [hvictim, hdirty, ← hstored]
            · simp [hvictim]

/-- A line stored to since its fill is resident and dirty, or has been written
back exactly once since. -/
theorem Reaches.stored_kept (h : Reaches history c) {line : L}
    (hstored : storedSinceFill line history = true) :
    c line = some true ∧ writeBacksSinceFill line history = 0 ∨
      c line = none ∧ writeBacksSinceFill line history = 1 := by
  rw [h.writeBacks_eq, hstored]
  cases hline : c line with
  | none => simp
  | some dirty =>
      left
      rw [h.dirty_eq hline, hstored]
      simp

/-! ## Caches of several sets -/

section Sets

variable {S : Type} {home : L → S} {ways : Nat} {i : S}

/-- At least `ways` lines of the set are resident. -/
def Full (home : L → S) (ways : Nat) (i : S) (c : Contents L) : Prop :=
  ∃ lines : List L, lines.Nodup ∧ lines.length = ways ∧ ∀ line ∈ lines, home line = i ∧ c line ≠ none

/-- A sequence of accesses, the first one first, in which a line gives way only to a line of
its own set, and only when the set is full. -/
inductive Frugal (home : L → S) (ways : Nat) : Contents L → List (Outcome L) → Prop
  | nil (c : Contents L) : Frugal home ways c []
  | cons {c c' : Contents L} {o : Outcome L} {later : List (Outcome L)} (step : Step c o c')
      (full : ∀ v, o.victim = some v → home v = home o.line ∧ Full home ways (home o.line) c)
      (rest : Frugal home ways c' later) : Frugal home ways c (o :: later)

omit [DecidableEq L] in
/-- A full set has no room for one more line among `ways` lines. -/
theorem Full.not_absent (h : Full home ways i c) {lines : List L} (hlen : lines.length ≤ ways)
    (hlines : ∀ l, home l = i → c l ≠ none → l ∈ lines) {line : L} (hmem : line ∈ lines) :
    c line ≠ none := by
  intro habsent
  obtain ⟨held, hnodup, hheld, hresident⟩ := h
  have hnew : line ∉ held := fun hin => (hresident line hin).2 habsent
  have hsub : (line :: held) ⊆ lines := by
    intro l hl
    rcases List.mem_cons.mp hl with rfl | hl
    · exact hmem
    · exact hlines l (hresident l hl).1 (hresident l hl).2
  have hle := ((List.nodup_cons.mpr ⟨hnew, hnodup⟩).subperm hsub).length_le
  rw [List.length_cons] at hle
  omega

theorem Step.miss_iff {o : Outcome L} {c' : Contents L} (h : Step c o c') :
    o.miss = true ↔ c o.line = none := by
  cases h with
  | hit resident => simp [resident]
  | miss absent => simp [absent]

/-- As long as no more than `ways` lines of a set are in use, each of them is missed once, when
it is accessed first. -/
theorem Frugal.misses_eq {later : List (Outcome L)} (h : Frugal home ways c later)
    {lines : List L} (hlen : lines.length ≤ ways)
    (hlines : ∀ l, home l = i → c l ≠ none ∨ (∃ o ∈ later, o.line = l) → l ∈ lines) {line : L}
    (hline : home line = i) :
    later.countP (fun o => o.miss && decide (o.line = line)) =
      if c line = none ∧ ∃ o ∈ later, o.line = line then 1 else 0 := by
  induction h with
  | nil => simp
  | cons step full rest ih =>
      rename_i c c' o later
      -- The set was not full before the access, so that it loses no line.
      have hnext (l : L) (hl : home l = i) : c' l = none ↔ c l = none ∧ l ≠ o.line := by
        cases step with
        | hit resident =>
            rename_i acc store dirty
            by_cases hacc : l = acc
            · simp [hacc]
            · simp [hacc]
        | miss absent victim resident =>
            rename_i acc store
            by_cases hacc : l = acc
            · simp [hacc]
            · have hkept : victim ≠ some l := by
                rintro rfl
                obtain ⟨hhome, hfull⟩ := full l rfl
                rw [← hhome, hl] at hfull
                apply hfull.not_absent hlen (fun l hl hc => hlines l hl (.inl hc)) _ absent
                exact hlines acc (hhome.symm.trans hl) (.inr ⟨_, List.mem_cons_self, rfl⟩)
              simp [evict, hacc, hkept]
      have ih := ih fun l hl => by
        rintro (hc | ⟨o', ho', rfl⟩)
        · by_cases hacc : l = o.line
          · exact hlines l hl (.inr ⟨o, List.mem_cons_self, hacc.symm⟩)
          · exact hlines l hl (.inl fun hnone => hc ((hnext l hl).mpr ⟨hnone, hacc⟩))
        · exact hlines _ hl (.inr ⟨o', List.mem_cons_of_mem _ ho', rfl⟩)
      rw [List.countP_cons, ih]
      by_cases hacc : o.line = line
      · have hsome : ¬ c' line = none := fun h => ((hnext line hline).mp h).2 hacc.symm
        have hmiss := step.miss_iff
        rw [hacc] at hmiss
        simp [hsome, hacc, hmiss]
      · simp [hnext line hline, hacc, Ne.symm hacc]

end Sets

end SpikeSim.WriteBack
