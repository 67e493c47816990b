/-
# What stateful code leaves alone

Code that returns or throws, from a state.  The simplification lemmas run such code
on a state; `Keeps R x` says that a relation holds between the states before and
after `x`, however it ends.  The rules follow the ways in which such code is put
together, so that a fact about every primitive becomes a fact about every function
built from them.
-/

import Mathlib

namespace SpikeSim

variable {ε σ α γ : Type}

/-! ## Running code -/

@[simp]
theorem run_pure (a : α) (s : σ) : (pure a : EStateM ε σ α) s = .ok a s := rfl

@[simp]
theorem run_throw (e : ε) (s : σ) : (throw e : EStateM ε σ α) s = .error e s := rfl

@[simp]
theorem run_get (s : σ) : (get : EStateM ε σ σ) s = .ok s s := rfl

@[simp]
theorem run_modify (f : σ → σ) (s : σ) :
    (modify f : EStateM ε σ PUnit) s = .ok ⟨⟩ (f s) := rfl

theorem run_bind (x : EStateM ε σ α) (f : α → EStateM ε σ γ) (s : σ) :
    (x >>= f) s =
      match x s with
      | .ok a s' => f a s'
      | .error e s' => .error e s' := rfl

/-- An exception keeps what was done before it. -/
theorem run_tryCatch (x : EStateM ε σ α) (f : ε → EStateM ε σ α) (s : σ) :
    (tryCatch x f) s =
      match x s with
      | .ok a s' => .ok a s'
      | .error e s' => f e s' := by
  change EStateM.tryCatch x f s = _
  unfold EStateM.tryCatch
  cases x s with
  | ok a s' => rfl
  | error e s' => rfl

/-! ## Relations between the states before and after -/

/-- However `x` ends, the states before and after it are related. -/
structure Keeps (R : σ → σ → Prop) (x : EStateM ε σ α) : Prop where
  ok : ∀ {s a s'}, x s = .ok a s' → R s s'
  error : ∀ {s e s'}, x s = .error e s' → R s s'

/-- When `x` throws, the states before and after it are related. -/
structure KeepsOnThrow (R : σ → σ → Prop) (x : EStateM ε σ α) : Prop where
  error : ∀ {s e s'}, x s = .error e s' → R s s'

/-- The states before and after `x` are related, unless it throws an exception in `E`. -/
structure KeepsUnless (E : ε → Prop) (R : σ → σ → Prop) (x : EStateM ε σ α) : Prop where
  ok : ∀ {s a s'}, x s = .ok a s' → R s s'
  error : ∀ {s e s'}, x s = .error e s' → ¬E e → R s s'

/-! ## Taking code apart -/

theorem bind_ok {x : EStateM ε σ α} {f : α → EStateM ε σ γ} {s s' : σ} {c : γ}
    (h : (x >>= f) s = .ok c s') : ∃ a mid, x s = .ok a mid ∧ f a mid = .ok c s' := by
  change EStateM.bind x f s = _ at h
  unfold EStateM.bind at h
  split at h
  · rename_i a mid hx
    exact ⟨a, mid, hx, h⟩
  · cases h

theorem bind_error {x : EStateM ε σ α} {f : α → EStateM ε σ γ} {s s' : σ} {e : ε}
    (h : (x >>= f) s = .error e s') :
    x s = .error e s' ∨ ∃ a mid, x s = .ok a mid ∧ f a mid = .error e s' := by
  change EStateM.bind x f s = _ at h
  unfold EStateM.bind at h
  split at h
  · rename_i a mid hx
    exact .inr ⟨a, mid, hx, h⟩
  · rename_i hx
    cases h
    exact .inl hx

theorem bind_eq_of_ok {x : EStateM ε σ α} {f : α → EStateM ε σ γ} {s mid : σ} {a : α}
    (h : x s = .ok a mid) : (x >>= f) s = f a mid := by
  change EStateM.bind x f s = _
  unfold EStateM.bind
  rw [h]

theorem bind_eq_of_error {x : EStateM ε σ α} {f : α → EStateM ε σ γ} {s mid : σ} {e : ε}
    (h : x s = .error e mid) : (x >>= f) s = .error e mid := by
  change EStateM.bind x f s = _
  unfold EStateM.bind
  rw [h]

/-- The code ends in this state, whether it returns or throws. -/
def Ends (x : EStateM ε σ α) (s s' : σ) : Prop :=
  (∃ a, x s = .ok a s') ∨ ∃ e, x s = .error e s'

theorem Ends.bind {x : EStateM ε σ α} {f : α → EStateM ε σ γ} {s s' : σ}
    (h : Ends (x >>= f) s s') :
    (∃ e, x s = .error e s') ∨ ∃ a mid, x s = .ok a mid ∧ Ends (f a) mid s' := by
  rcases h with ⟨c, hok⟩ | ⟨e, herr⟩
  · obtain ⟨a, mid, hx, hf⟩ := bind_ok hok
    exact .inr ⟨a, mid, hx, .inl ⟨c, hf⟩⟩
  · rcases bind_error herr with hx | ⟨a, mid, hx, hf⟩
    · exact .inl ⟨e, hx⟩
    · exact .inr ⟨a, mid, hx, .inr ⟨e, hf⟩⟩

theorem Ends.of_pure {a : α} {s s' : σ} (h : Ends (pure a : EStateM ε σ α) s s') : s' = s := by
  rcases h with ⟨_, hok⟩ | ⟨_, herr⟩
  · cases hok
    rfl
  · cases herr

theorem Ends.of_modify {f : σ → σ} {s s' : σ}
    (h : Ends (modify f : EStateM ε σ PUnit) s s') : s' = f s := by
  rcases h with ⟨_, hok⟩ | ⟨_, herr⟩
  · cases hok
    rfl
  · cases herr

theorem Ends.of_modify_bind {f : σ → σ} {g : PUnit → EStateM ε σ α} {s s' : σ}
    (h : Ends ((modify f : EStateM ε σ PUnit) >>= g) s s') : Ends (g ⟨⟩) (f s) s' := h

theorem Ends.of_throw {e : ε} {s s' : σ} (h : Ends (throw e : EStateM ε σ α) s s') : s' = s := by
  rcases h with ⟨_, hok⟩ | ⟨_, herr⟩
  · cases hok
  · cases herr
    rfl

theorem Ends.of_throw_bind {e : ε} {f : α → EStateM ε σ γ} {s s' : σ}
    (h : Ends ((throw e : EStateM ε σ α) >>= f) s s') : s' = s := by
  rcases h.bind with ⟨_, herr⟩ | ⟨_, _, hok, _⟩
  · cases herr
    rfl
  · cases hok

theorem Ends.of_get_bind {f : σ → EStateM ε σ α} {s s' : σ} (h : Ends (get >>= f) s s') :
    Ends (f s) s s' := h

/-- What follows does not end the code. -/
theorem Ends.of_bind_pure {x : EStateM ε σ α} {f : α → γ} {s s' : σ}
    (h : Ends (x >>= fun a => pure (f a)) s s') : Ends x s s' := by
  rcases h.bind with ⟨e, herr⟩ | ⟨a, mid, hok, hrest⟩
  · exact .inr ⟨e, herr⟩
  · obtain rfl := hrest.of_pure
    exact .inl ⟨a, hok⟩

theorem Keeps.ends {R : σ → σ → Prop} {x : EStateM ε σ α} (hx : Keeps R x) {s s' : σ}
    (h : Ends x s s') : R s s' := by
  rcases h with ⟨a, hok⟩ | ⟨e, herr⟩
  · exact hx.ok hok
  · exact hx.error herr

/-! ## Rules -/

section Rules

variable {R : σ → σ → Prop}

theorem Keeps.onThrow {x : EStateM ε σ α} (hx : Keeps R x) : KeepsOnThrow R x := ⟨hx.error⟩

theorem Keeps.imp {R' : σ → σ → Prop} {x : EStateM ε σ α} (hx : Keeps R x)
    (h : ∀ s s', R s s' → R' s s') : Keeps R' x where
  ok hok := h _ _ (hx.ok hok)
  error herr := h _ _ (hx.error herr)

theorem Keeps.modify {f : σ → σ} (h : ∀ s, R s (f s)) :
    Keeps R (modify f : EStateM ε σ PUnit) where
  ok := by
    intro s a s' heq
    cases heq
    exact h s
  error := by
    intro s e s' heq
    cases heq

variable [Std.Refl R]

theorem Keeps.pure (a : α) : Keeps R (pure a : EStateM ε σ α) where
  ok := by
    intro s b s' h
    cases h
    exact Std.Refl.refl _
  error := by
    intro s e s' h
    cases h

theorem Keeps.throw (e : ε) : Keeps R (throw e : EStateM ε σ α) where
  ok := by
    intro s a s' h
    cases h
  error := by
    intro s e' s' h
    cases h
    exact Std.Refl.refl _

theorem Keeps.get : Keeps R (get : EStateM ε σ σ) where
  ok := by
    intro s a s' h
    cases h
    exact Std.Refl.refl _
  error := by
    intro s e s' h
    cases h

omit [Std.Refl R] in
theorem KeepsOnThrow.modify {f : σ → σ} :
    KeepsOnThrow R (modify f : EStateM ε σ PUnit) where
  error := by
    intro s e s' h
    cases h

omit [Std.Refl R] in
theorem KeepsOnThrow.ite {c : Prop} [Decidable c] {x y : EStateM ε σ α}
    (hx : KeepsOnThrow R x) (hy : KeepsOnThrow R y) : KeepsOnThrow R (if c then x else y) := by
  split
  · exact hx
  · exact hy

omit [Std.Refl R] in
theorem Keeps.ite {c : Prop} [Decidable c] {x y : EStateM ε σ α} (hx : Keeps R x)
    (hy : Keeps R y) : Keeps R (if c then x else y) := by
  split
  · exact hx
  · exact hy

variable [IsTrans σ R]

omit [Std.Refl R] in
theorem Keeps.bind {x : EStateM ε σ α} {f : α → EStateM ε σ γ} (hx : Keeps R x)
    (hf : ∀ a, Keeps R (f a)) : Keeps R (x >>= f) where
  ok := by
    intro s c s' h
    obtain ⟨a, mid, hfirst, hrest⟩ := bind_ok h
    exact IsTrans.trans _ _ _ (hx.ok hfirst) ((hf a).ok hrest)
  error := by
    intro s e s' h
    rcases bind_error h with hfirst | ⟨a, mid, hfirst, hrest⟩
    · exact hx.error hfirst
    · exact IsTrans.trans _ _ _ (hx.ok hfirst) ((hf a).error hrest)

omit [Std.Refl R] in
theorem Keeps.tryCatch {x : EStateM ε σ α} {f : ε → EStateM ε σ α} (hx : Keeps R x)
    (hf : ∀ e, Keeps R (f e)) : Keeps R (tryCatch x f) where
  ok := by
    intro s a s' h
    rw [run_tryCatch] at h
    split at h
    · rename_i hfirst
      cases h
      exact hx.ok hfirst
    · rename_i hfirst
      exact IsTrans.trans _ _ _ (hx.error hfirst) ((hf _).ok h)
  error := by
    intro s e s' h
    rw [run_tryCatch] at h
    split at h
    · cases h
    · rename_i hfirst
      exact IsTrans.trans _ _ _ (hx.error hfirst) ((hf _).error h)

omit [Std.Refl R] in
theorem KeepsOnThrow.bind {x : EStateM ε σ α} {f : α → EStateM ε σ γ} (hx : Keeps R x)
    (hf : ∀ a, KeepsOnThrow R (f a)) : KeepsOnThrow R (x >>= f) where
  error := by
    intro s e s' h
    rcases bind_error h with hfirst | ⟨a, mid, hfirst, hrest⟩
    · exact hx.error hfirst
    · exact IsTrans.trans _ _ _ (hx.ok hfirst) ((hf a).error hrest)

omit [Std.Refl R] in
theorem KeepsOnThrow.tryCatch {x : EStateM ε σ α} {f : ε → EStateM ε σ α}
    (hx : KeepsOnThrow R x) (hf : ∀ e, KeepsOnThrow R (f e)) :
    KeepsOnThrow R (tryCatch x f) where
  error := by
    intro s e s' h
    rw [run_tryCatch] at h
    split at h
    · cases h
    · rename_i hfirst
      exact IsTrans.trans _ _ _ (hx.error hfirst) ((hf _).error h)

omit [Std.Refl R] [IsTrans σ R] in
theorem Keeps.unless {E : ε → Prop} {x : EStateM ε σ α} (hx : Keeps R x) : KeepsUnless E R x :=
  ⟨hx.ok, fun h _ => hx.error h⟩

omit [Std.Refl R] [IsTrans σ R] in
theorem KeepsUnless.ite {E : ε → Prop} {c : Prop} [Decidable c] {x y : EStateM ε σ α}
    (hx : KeepsUnless E R x) (hy : KeepsUnless E R y) :
    KeepsUnless E R (if c then x else y) := by
  split
  · exact hx
  · exact hy

omit [Std.Refl R] in
theorem KeepsUnless.bind {E : ε → Prop} {x : EStateM ε σ α} {f : α → EStateM ε σ γ}
    (hx : KeepsUnless E R x) (hf : ∀ a, KeepsUnless E R (f a)) : KeepsUnless E R (x >>= f) where
  ok := by
    intro s c s' h
    obtain ⟨a, mid, hfirst, hrest⟩ := bind_ok h
    exact IsTrans.trans _ _ _ (hx.ok hfirst) ((hf a).ok hrest)
  error := by
    intro s e s' h he
    rcases bind_error h with hfirst | ⟨a, mid, hfirst, hrest⟩
    · exact hx.error hfirst he
    · exact IsTrans.trans _ _ _ (hx.ok hfirst) ((hf a).error hrest he)

omit [Std.Refl R] in
/-- The handler throws the exceptions in `E` again. -/
theorem KeepsUnless.tryCatch {E : ε → Prop} {x : EStateM ε σ α} {f : ε → EStateM ε σ α}
    (hx : KeepsUnless E R x) (hf : ∀ e, ¬E e → KeepsUnless E R (f e))
    (hthrow : ∀ e, E e → f e = throw e) : KeepsUnless E R (tryCatch x f) := by
  constructor
  · intro s a s' h
    cases hfirst : x s with
    | ok b mid =>
        rw [run_tryCatch, hfirst] at h
        cases h
        exact hx.ok hfirst
    | error e mid =>
        rw [run_tryCatch, hfirst] at h
        by_cases he : E e
        · simp only [hthrow e he] at h
          cases h
        · exact IsTrans.trans _ _ _ (hx.error hfirst he) ((hf e he).ok h)
  · intro s e' s' h he'
    cases hfirst : x s with
    | ok b mid =>
        rw [run_tryCatch, hfirst] at h
        cases h
    | error e mid =>
        rw [run_tryCatch, hfirst] at h
        by_cases he : E e
        · simp only [hthrow e he] at h
          cases h
          exact absurd he he'
        · exact IsTrans.trans _ _ _ (hx.error hfirst he) ((hf e he).error h he')

end Rules

/-! ## Postconditions -/

/-- Started in `s`, the code returns as `Q` says or throws as `E` says. -/
def Ensures (x : EStateM ε σ α) (s : σ) (Q : α → σ → Prop) (E : ε → σ → Prop) : Prop :=
  match x s with
  | .ok a s' => Q a s'
  | .error e s' => E e s'

section Ensures

variable {x : EStateM ε σ α} {s : σ} {Q : α → σ → Prop} {E : ε → σ → Prop}

theorem ensures_iff : Ensures x s Q E ↔
    (∀ a s', x s = .ok a s' → Q a s') ∧ ∀ e s', x s = .error e s' → E e s' := by
  unfold Ensures
  cases x s with
  | ok a s' => simp
  | error e s' => simp

theorem Ensures.ok (h : Ensures x s Q E) {a : α} {s' : σ} (hx : x s = .ok a s') : Q a s' :=
  (ensures_iff.mp h).1 a s' hx

theorem Ensures.error (h : Ensures x s Q E) {e : ε} {s' : σ} (hx : x s = .error e s') :
    E e s' :=
  (ensures_iff.mp h).2 e s' hx

theorem Ensures.cases (h : Ensures x s Q E) :
    (∃ a s', x s = .ok a s' ∧ Q a s') ∨ ∃ e s', x s = .error e s' ∧ E e s' := by
  cases hx : x s with
  | ok a s' => exact .inl ⟨a, s', rfl, h.ok hx⟩
  | error e s' => exact .inr ⟨e, s', rfl, h.error hx⟩

theorem Ensures.of_ok {a : α} {s' : σ} (hx : x s = .ok a s') (h : Q a s') : Ensures x s Q E := by
  rw [Ensures, hx]
  exact h

theorem Ensures.of_error {e : ε} {s' : σ} (hx : x s = .error e s') (h : E e s') :
    Ensures x s Q E := by
  rw [Ensures, hx]
  exact h

/-- The outcome satisfies the conditions. -/
def EndsAs (Q : α → σ → Prop) (E : ε → σ → Prop) : EStateM.Result ε σ α → Prop
  | .ok a s => Q a s
  | .error e s => E e s

instance [∀ a s, Decidable (Q a s)] [∀ e s, Decidable (E e s)] :
    (r : EStateM.Result ε σ α) → Decidable (EndsAs Q E r)
  | .ok a s => inferInstanceAs (Decidable (Q a s))
  | .error e s => inferInstanceAs (Decidable (E e s))

instance [∀ a s, Decidable (Q a s)] [∀ e s, Decidable (E e s)] : Decidable (Ensures x s Q E) :=
  inferInstanceAs (Decidable (EndsAs Q E (x s)))

theorem Ensures.imp {Q' : α → σ → Prop} {E' : ε → σ → Prop} (h : Ensures x s Q E)
    (hQ : ∀ a s', Q a s' → Q' a s') (hE : ∀ e s', E e s' → E' e s') : Ensures x s Q' E' :=
  ensures_iff.mpr ⟨fun a s' hx => hQ a s' (h.ok hx), fun e s' hx => hE e s' (h.error hx)⟩

theorem Ensures.bind {f : α → EStateM ε σ γ} {Q' : γ → σ → Prop}
    (h : Ensures x s (fun a s' => Ensures (f a) s' Q' E) E) : Ensures (x >>= f) s Q' E := by
  unfold Ensures at h ⊢
  rw [run_bind]
  cases hx : x s with
  | ok a s' => simpa [hx] using h
  | error e s' => simpa [hx] using h

theorem Ensures.tryCatch {f : ε → EStateM ε σ α}
    (h : Ensures x s Q fun e s' => Ensures (f e) s' Q E) : Ensures (tryCatch x f) s Q E := by
  rcases h.cases with ⟨a, s', hx, ha⟩ | ⟨e, s', hx, he⟩
  · apply Ensures.of_ok _ ha
    rw [run_tryCatch, hx]
  · rw [Ensures, run_tryCatch, hx]
    exact he

theorem Ensures.ite {c : Prop} [Decidable c] {y : EStateM ε σ α} (hx : c → Ensures x s Q E)
    (hy : ¬c → Ensures y s Q E) : Ensures (if c then x else y) s Q E := by
  split
  · exact hx ‹_›
  · exact hy ‹_›

/-- A fact that the code preserves. -/
def Stable (I : σ → Prop) (s s' : σ) : Prop := I s → I s'

instance (I : σ → Prop) : Std.Refl (Stable I) := ⟨fun _ h => h⟩

instance (I : σ → Prop) : IsTrans σ (Stable I) := ⟨fun _ _ _ h h' hs => h' (h hs)⟩

theorem Keeps.ensures {I : σ → Prop} (h : Keeps (Stable I) x) (hs : I s) :
    Ensures x s (fun _ => I) fun _ => I :=
  ensures_iff.mpr ⟨fun _ _ hx => h.ok hx hs, fun _ _ hx => h.error hx hs⟩

theorem keeps_stable_iff {I : σ → Prop} :
    Keeps (Stable I) x ↔ ∀ s, I s → Ensures x s (fun _ => I) fun _ => I := by
  constructor
  · exact fun h s hs => h.ensures hs
  · intro h
    exact ⟨fun hx hs => (h _ hs).ok hx, fun hx hs => (h _ hs).error hx⟩

end Ensures

/-! ## Values -/

/-- Whatever the code returns satisfies `Q`. -/
structure Returns (x : EStateM ε σ α) (Q : α → Prop) : Prop where
  ok : ∀ {s a s'}, x s = .ok a s' → Q a

section Returns

variable {Q : α → Prop}

theorem Returns.any (x : EStateM ε σ α) : Returns x fun _ => True := ⟨fun _ => trivial⟩

theorem Returns.pure {a : α} (h : Q a) : Returns (pure a : EStateM ε σ α) Q := by
  constructor
  intro s b s' hrun
  cases hrun
  exact h

theorem Returns.throw (e : ε) : Returns (throw e : EStateM ε σ α) Q := by
  constructor
  intro s b s' hrun
  cases hrun

theorem Returns.bind {R : γ → Prop} {x : EStateM ε σ α} {f : α → EStateM ε σ γ}
    (hx : Returns x Q) (hf : ∀ a, Q a → Returns (f a) R) : Returns (x >>= f) R := by
  constructor
  intro s c s' hrun
  obtain ⟨a, mid, hfirst, hrest⟩ := bind_ok hrun
  exact (hf a (hx.ok hfirst)).ok hrest

theorem Returns.ite {c : Prop} [Decidable c] {x y : EStateM ε σ α} (hx : c → Returns x Q)
    (hy : ¬c → Returns y Q) : Returns (if c then x else y) Q := by
  split
  · exact hx ‹_›
  · exact hy ‹_›

end Returns

/-! ## Exceptions -/

/-- Whatever the code throws, and the state that it leaves then, satisfy `E`. -/
structure Throws (E : ε → σ → Prop) (x : EStateM ε σ α) : Prop where
  error : ∀ {s e s'}, x s = .error e s' → E e s'

section Throws

variable {E : ε → σ → Prop}

theorem Throws.pure (a : α) : Throws E (pure a : EStateM ε σ α) := ⟨by
  intro s e s' h
  cases h⟩

theorem Throws.get : Throws E (get : EStateM ε σ σ) := ⟨by
  intro s e s' h
  cases h⟩

theorem Throws.modify (f : σ → σ) : Throws E (modify f : EStateM ε σ PUnit) := ⟨by
  intro s e s' h
  cases h⟩

theorem Throws.throw {e : ε} (h : ∀ s, E e s) : Throws E (throw e : EStateM ε σ α) := ⟨by
  intro s e' s' hrun
  cases hrun
  exact h s⟩

theorem Throws.bind {x : EStateM ε σ α} {f : α → EStateM ε σ γ} (hx : Throws E x)
    (hf : ∀ a, Throws E (f a)) : Throws E (x >>= f) := by
  constructor
  intro s e s' h
  rcases bind_error h with hfirst | ⟨a, mid, -, hrest⟩
  · exact hx.error hfirst
  · exact (hf a).error hrest

theorem Throws.ite {c : Prop} [Decidable c] {x y : EStateM ε σ α} (hx : Throws E x)
    (hy : Throws E y) : Throws E (if c then x else y) := by
  split
  · exact hx
  · exact hy

/-- The handler sees only exceptions that satisfy `E`, in a state that does. -/
theorem Throws.tryCatch {x : EStateM ε σ α} {f : ε → EStateM ε σ α} (hx : Throws E x)
    (hf : ∀ e s e' s', E e s → f e s = .error e' s' → E e' s') : Throws E (tryCatch x f) := by
  constructor
  intro s e s' h
  rw [run_tryCatch] at h
  split at h
  · cases h
  · rename_i hfirst
    exact hf _ _ _ _ (hx.error hfirst) h

end Throws

/-! ## Evaluation -/

/-- The run ends without an exception. -/
def Succeeds : EStateM.Result ε σ α → Bool
  | .ok _ _ => true
  | .error _ _ => false

theorem Succeeds.exists_ok {r : EStateM.Result ε σ α} (h : Succeeds r = true) :
    ∃ a s, r = .ok a s := by
  cases r with
  | ok a s => exact ⟨a, s, rfl⟩
  | error e s => cases h

end SpikeSim
