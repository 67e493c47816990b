/-
# Programs over a set of operations

A program is a tree: it returns, raises an exception, or calls an operation and
goes on with its result.  Giving every operation a meaning in a state monad with
exceptions gives a meaning to every program.

What holds of each operation holds of the programs built from them, and the rules
here say so once: a relation between the states before and after (`run_trans`),
the absence of exceptions (`run_total`), and that a program which raises an
exception has left the protected part of the state alone (`run_atomic`).
-/

import SpikeSim.Lib.Effect

namespace SpikeSim

/-- Programs over the operations `Op`, where `o` returns a `Res o`, with
exceptions `ε`. -/
inductive Program (Op : Type) (Res : Op → Type) (ε α : Type) : Type
  | ret (a : α)
  | raise (e : ε)
  | call (o : Op) (k : Res o → Program Op Res ε α)

namespace Program

variable {Op : Type} {Res : Op → Type} {ε σ α γ : Type}

protected def bind : Program Op Res ε α → (α → Program Op Res ε γ) → Program Op Res ε γ
  | .ret a, f => f a
  | .raise e, _ => .raise e
  | .call o k, f => .call o fun r => (k r).bind f

instance : Monad (Program Op Res ε) where
  pure := .ret
  bind := Program.bind

/-- The program that calls one operation. -/
def perform (o : Op) : Program Op Res ε (Res o) := .call o .ret

@[simp]
theorem pure_eq (a : α) : (pure a : Program Op Res ε α) = .ret a := rfl

@[simp]
theorem ret_bind (a : α) (f : α → Program Op Res ε γ) : (.ret a >>= f) = f a := rfl

@[simp]
theorem raise_bind (e : ε) (f : α → Program Op Res ε γ) :
    ((.raise e : Program Op Res ε α) >>= f) = .raise e := rfl

@[simp]
theorem call_bind (o : Op) (k : Res o → Program Op Res ε α) (f : α → Program Op Res ε γ) :
    (.call o k >>= f) = .call o fun r => k r >>= f := rfl

@[simp]
theorem perform_bind (o : Op) (f : Res o → Program Op Res ε γ) :
    (perform o >>= f) = .call o f := rfl

protected theorem bind_ret (p : Program Op Res ε α) : p >>= .ret = p := by
  induction p with
  | ret _ => rfl
  | raise _ => rfl
  | call o k ih => simp only [call_bind, ih]

protected theorem bind_assoc {δ : Type} (p : Program Op Res ε α) (f : α → Program Op Res ε γ)
    (g : γ → Program Op Res ε δ) : p >>= f >>= g = p >>= fun a => f a >>= g := by
  induction p with
  | ret _ => rfl
  | raise _ => rfl
  | call o k ih => simp only [call_bind, ih]

/-- The meaning of a program, given the meaning of its operations. -/
def run (exec : (o : Op) → EStateM ε σ (Res o)) : Program Op Res ε α → EStateM ε σ α
  | .ret a => pure a
  | .raise e => throw e
  | .call o k => exec o >>= fun r => (k r).run exec

/-- Every operation that the program may call satisfies `P`. -/
def Uses (P : Op → Prop) : Program Op Res ε α → Prop
  | .ret _ => True
  | .raise _ => True
  | .call o k => P o ∧ ∀ r, (k r).Uses P

theorem Uses.bind {P : Op → Prop} {p : Program Op Res ε α} {f : α → Program Op Res ε γ}
    (hp : p.Uses P) (hf : ∀ a, (f a).Uses P) : (p >>= f).Uses P := by
  induction p with
  | ret a => exact hf a
  | raise e => trivial
  | call o k ih => exact ⟨hp.1, fun r => ih r (hp.2 r)⟩

theorem uses_true (p : Program Op Res ε α) : p.Uses fun _ => True := by
  induction p with
  | ret _ => trivial
  | raise _ => trivial
  | call o k ih => exact ⟨trivial, ih⟩

theorem Uses.imp {P Q : Op → Prop} {p : Program Op Res ε α} (h : ∀ o, P o → Q o)
    (hp : p.Uses P) : p.Uses Q := by
  induction p with
  | ret _ => trivial
  | raise _ => trivial
  | call o k ih => exact ⟨h o hp.1, fun r => ih r (hp.2 r)⟩

/-- Every exception that the program may raise satisfies `R`. -/
def Raises (R : ε → Prop) : Program Op Res ε α → Prop
  | .ret _ => True
  | .raise e => R e
  | .call _ k => ∀ r, (k r).Raises R

theorem Raises.bind {R : ε → Prop} {p : Program Op Res ε α} {f : α → Program Op Res ε γ}
    (hp : p.Raises R) (hf : ∀ a, (f a).Raises R) : (p >>= f).Raises R := by
  induction p with
  | ret a => exact hf a
  | raise e => exact hp
  | call o k ih => exact fun r => ih r (hp r)

/-- As long as the operations answer as `A` says, the program calls only operations that
satisfy `P`, and what it returns satisfies `Q`. -/
def Meets (A : (o : Op) → Res o → Prop) (P : Op → Prop) (Q : α → Prop) :
    Program Op Res ε α → Prop
  | .ret a => Q a
  | .raise _ => True
  | .call o k => P o ∧ ∀ r, A o r → (k r).Meets A P Q

section Meets

variable {A : (o : Op) → Res o → Prop} {P : Op → Prop} {Q : α → Prop}

theorem Meets.bind {R : γ → Prop} {p : Program Op Res ε α} {f : α → Program Op Res ε γ}
    (hp : p.Meets A P Q) (hf : ∀ a, Q a → (f a).Meets A P R) : (p >>= f).Meets A P R := by
  induction p with
  | ret a => exact hf a hp
  | raise e => trivial
  | call o k ih => exact ⟨hp.1, fun r hr => ih r (hp.2 r hr)⟩

theorem Meets.imp {Q' : α → Prop} {p : Program Op Res ε α} (hp : p.Meets A P Q)
    (h : ∀ a, Q a → Q' a) : p.Meets A P Q' := by
  induction p with
  | ret a => exact h a hp
  | raise e => trivial
  | call o k ih => exact ⟨hp.1, fun r hr => ih r (hp.2 r hr)⟩

theorem Uses.meets {p : Program Op Res ε α} (hp : p.Uses P) : p.Meets A P fun _ => True := by
  induction p with
  | ret a => trivial
  | raise e => trivial
  | call o k ih => exact ⟨hp.1, fun r _ => ih r (hp.2 r)⟩

end Meets

/-- What a run of the program logs, given what each operation logs in a state. -/
def log {L : Type} (exec : (o : Op) → EStateM ε σ (Res o)) (logs : Op → σ → List L) :
    Program Op Res ε α → σ → List L
  | .ret _, _ => []
  | .raise _, _ => []
  | .call o k, s =>
    logs o s ++
      match exec o s with
      | .ok r s' => (k r).log exec logs s'
      | .error _ _ => []

/-- A call that fails is the last thing that is logged. -/
theorem log_call_error {L : Type} {exec : (o : Op) → EStateM ε σ (Res o)} {logs : Op → σ → List L}
    {o : Op} {k : Res o → Program Op Res ε α} {s s' : σ} {e : ε} (h : exec o s = .error e s') :
    (call o k).log exec logs s = logs o s := by
  rw [log, h]
  exact List.append_nil _

/-- The program raises nothing, and calls only operations marked as total. -/
def Total (total : Op → Bool) : Program Op Res ε α → Prop
  | .ret _ => True
  | .raise _ => False
  | .call o k => total o = true ∧ ∀ r, (k r).Total total

/-- Nothing can fail after the first operation that is not quiet. -/
def Atomic (quiet total : Op → Bool) : Program Op Res ε α → Prop
  | .ret _ => True
  | .raise _ => True
  | .call o k => bif quiet o then ∀ r, (k r).Atomic quiet total else ∀ r, (k r).Total total

section Rules

variable {exec : (o : Op) → EStateM ε σ (Res o)}

@[simp]
theorem run_ret (a : α) (s : σ) : (ret a : Program Op Res ε α).run exec s = .ok a s := rfl

@[simp]
theorem run_raise (e : ε) (s : σ) :
    (raise e : Program Op Res ε α).run exec s = .error e s := rfl

theorem run_perform (o : Op) : (perform o : Program Op Res ε (Res o)).run exec = exec o :=
  bind_pure (exec o)

theorem run_bind (p : Program Op Res ε α) (f : α → Program Op Res ε γ) :
    (p >>= f).run exec = p.run exec >>= fun a => (f a).run exec := by
  induction p with
  | ret a => rfl
  | raise e => rfl
  | call o k ih =>
      simp only [call_bind, run, ih, bind_assoc]

/-- One call, split into the operation and the rest. -/
theorem run_call_ok {o : Op} {k : Res o → Program Op Res ε α} {s s' : σ} {a : α}
    (h : (call o k).run exec s = .ok a s') :
    ∃ r mid, exec o s = .ok r mid ∧ (k r).run exec mid = .ok a s' := by
  change EStateM.bind _ _ s = _ at h
  unfold EStateM.bind at h
  split at h
  · rename_i r mid hexec
    exact ⟨r, mid, hexec, h⟩
  · cases h

theorem run_call_error {o : Op} {k : Res o → Program Op Res ε α} {s s' : σ} {e : ε}
    (h : (call o k).run exec s = .error e s') :
    exec o s = .error e s' ∨
      ∃ r mid, exec o s = .ok r mid ∧ (k r).run exec mid = .error e s' := by
  change EStateM.bind _ _ s = _ at h
  unfold EStateM.bind at h
  split at h
  · rename_i r mid hexec
    exact .inr ⟨r, mid, hexec, h⟩
  · rename_i e' mid hexec
    cases h
    exact .inl hexec

/-- A transitive relation that every operation of the program respects holds
between the states before and after a run that returns. -/
theorem run_trans {R : σ → σ → Prop} [Std.Refl R] [IsTrans σ R] {P : Op → Prop}
    (hexec : ∀ o s r s', P o → exec o s = .ok r s' → R s s')
    {p : Program Op Res ε α} {s s' : σ} {a : α} (huses : p.Uses P)
    (h : p.run exec s = .ok a s') : R s s' := by
  induction p generalizing s with
  | ret _ =>
      cases h
      exact Std.Refl.refl _
  | raise _ => cases h
  | call o k ih =>
      obtain ⟨r, mid, hcall, hrest⟩ := run_call_ok h
      exact IsTrans.trans _ _ _ (hexec o s r mid huses.1 hcall) (ih r (huses.2 r) hrest)

/-- A relation that every operation of the program respects, however it ends, holds between
the states before and after a run. -/
theorem keeps_run {R : σ → σ → Prop} [Std.Refl R] [IsTrans σ R] {P : Op → Prop}
    (hexec : ∀ o, P o → Keeps R (exec o)) {p : Program Op Res ε α} (huses : p.Uses P) :
    Keeps R (p.run exec) := by
  induction p with
  | ret a => exact .pure a
  | raise e => exact .throw e
  | call o k ih => exact .bind (hexec o huses.1) fun r => ih r (huses.2 r)

/-- The same for a relation that operations may break when they throw an exception in `E`. -/
theorem keepsUnless_run {R : σ → σ → Prop} [Std.Refl R] [IsTrans σ R] {E : ε → Prop}
    (hexec : ∀ o, KeepsUnless E R (exec o)) (p : Program Op Res ε α) :
    KeepsUnless E R (p.run exec) := by
  induction p with
  | ret a => exact (Keeps.pure a).unless
  | raise e => exact (Keeps.throw e).unless
  | call o k ih => exact .bind (hexec o) ih

/-- An invariant under which the operations answer as `A` says is kept by a program that
counts on such answers. -/
theorem Meets.ensures {I : σ → Prop} {A : (o : Op) → Res o → Prop} {P : Op → Prop} {Q : α → Prop}
    (hexec : ∀ o s, P o → I s → Ensures (exec o) s (fun r s' => A o r ∧ I s') fun _ => I)
    {p : Program Op Res ε α} (hp : p.Meets A P Q) {s : σ} (hs : I s) :
    Ensures (p.run exec) s (fun a s' => Q a ∧ I s') fun _ => I := by
  induction p generalizing s with
  | ret a => exact ⟨hp, hs⟩
  | raise e => exact hs
  | call o k ih =>
      refine Ensures.bind ((hexec o s hp.1 hs).imp ?_ fun _ _ h => h)
      rintro r s' ⟨hr, hs'⟩
      exact ih r (hp.2 r hr) hs'

/-- If under an invariant every operation appends to an output what it logs, then so does every
program. -/
theorem Uses.ensures_log {L : Type} {I : σ → Prop} {P : Op → Prop} {logs : Op → σ → List L}
    {out : σ → List L}
    (hexec : ∀ o s, P o → I s →
      Ensures (exec o) s (fun _ s' => I s' ∧ out s' = out s ++ logs o s)
        fun _ s' => I s' ∧ out s' = out s ++ logs o s)
    {p : Program Op Res ε α} (hp : p.Uses P) {s : σ} (hs : I s) :
    Ensures (p.run exec) s (fun _ s' => I s' ∧ out s' = out s ++ p.log exec logs s)
      fun _ s' => I s' ∧ out s' = out s ++ p.log exec logs s := by
  induction p generalizing s with
  | ret a => exact ⟨hs, by rw [log, List.append_nil]⟩
  | raise e => exact ⟨hs, by rw [log, List.append_nil]⟩
  | call o k ih =>
      unfold Ensures
      rw [log, run, SpikeSim.run_bind]
      rcases (hexec o s hp.1 hs).cases with ⟨r, mid, hrun, hI, hout⟩ | ⟨e, mid, hrun, hI, hout⟩
      · rw [hrun]
        dsimp only
        have hrest := ih r (hp.2 r) hI
        rw [hout, List.append_assoc] at hrest
        exact hrest
      · rw [hrun]
        dsimp only
        rw [List.append_nil]
        exact ⟨hI, hout⟩

/-- A program throws what its operations throw, and what it raises itself. -/
theorem throws_run {E : ε → σ → Prop} {R : ε → Prop} (hexec : ∀ o, Throws E (exec o))
    (hraise : ∀ e s, R e → E e s) {p : Program Op Res ε α} (hp : p.Raises R) :
    Throws E (p.run exec) := by
  induction p with
  | ret a => exact .pure a
  | raise e => exact .throw fun s => hraise e s hp
  | call o k ih => exact .bind (hexec o) fun r => ih r (hp r)

/-- A total program returns. -/
theorem run_total {total : Op → Bool}
    (hexec : ∀ o s, total o = true → ∃ r s', exec o s = .ok r s')
    {p : Program Op Res ε α} (htotal : p.Total total) (s : σ) :
    ∃ a s', p.run exec s = .ok a s' := by
  induction p generalizing s with
  | ret a => exact ⟨a, s, rfl⟩
  | raise _ => cases htotal
  | call o k ih =>
      obtain ⟨r, mid, hcall⟩ := hexec o s htotal.1
      obtain ⟨a, s', hrest⟩ := ih r (htotal.2 r) mid
      refine ⟨a, s', ?_⟩
      change EStateM.bind _ _ s = _
      unfold EStateM.bind
      rw [hcall]
      exact hrest

/-- **Atomicity.** When a program raises an exception that satisfies `E`, the
states before and after are related by `R`, provided that quiet operations respect
`R` and that an operation which fails with such an exception does. -/
theorem run_atomic {R : σ → σ → Prop} [Std.Refl R] [IsTrans σ R] {E : ε → Prop}
    {quiet total : Op → Bool}
    (hquiet : ∀ o s r s', quiet o = true → exec o s = .ok r s' → R s s')
    (hfail : ∀ o s e s', E e → exec o s = .error e s' → R s s')
    (htotal : ∀ o s, total o = true → ∃ r s', exec o s = .ok r s')
    {p : Program Op Res ε α} {s s' : σ} {e : ε} (hatomic : p.Atomic quiet total) (he : E e)
    (h : p.run exec s = .error e s') : R s s' := by
  induction p generalizing s with
  | ret _ => cases h
  | raise _ =>
      cases h
      exact Std.Refl.refl _
  | call o k ih =>
      rcases run_call_error h with hcall | ⟨r, mid, hcall, hrest⟩
      · exact hfail o s e s' he hcall
      · unfold Atomic at hatomic
        cases hq : quiet o with
        | false =>
            -- The operation may have changed the state, so the rest does not fail.
            rw [hq] at hatomic
            obtain ⟨a, s'', hok⟩ := run_total htotal (hatomic r) mid
            rw [hok] at hrest
            cases hrest
        | true =>
            rw [hq] at hatomic
            exact IsTrans.trans _ _ _ (hquiet o s r mid hq hcall) (ih r (hatomic r) hrest)

end Rules

end Program

end SpikeSim
