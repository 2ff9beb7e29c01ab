

/-!
This module contains programs that call the operations of an interface.
-/

namespace Program

structure Signature where
  Op : Type
  Answer : Op → Type

inductive Prog (S : Signature) (ε α : Type) where
  | pure (a : α)
  | fail (err : ε)
  | panic
  | call (op : S.Op) (next : S.Answer op → Prog S ε α)

inductive Outcome (ε α : Type) where
  | done (a : α)
  | fail (err : ε)
  | panic
  deriving DecidableEq

namespace Prog

variable {ε ε' α β σ : Type}

protected def bind : Prog S ε α → (α → Prog S ε β) → Prog S ε β
  | .pure a, f => f a
  | .fail err, _ => .fail err
  | .panic, _ => .panic
  | .call op next, f => .call op fun answer => (next answer).bind f

instance : Monad (Prog S ε) where
  pure := .pure
  bind := Prog.bind

def ofOption (err : ε) : Option α → Prog S ε α
  | some a => .pure a
  | none => .fail err

def ofExcept : Except ε α → Prog S ε α
  | .ok a => .pure a
  | .error err => .fail err

-- An operation that answers an error or `nil`
def ofError : Option ε → Prog S ε Unit
  | none => .pure ()
  | some err => .fail err

def mapError (f : ε → ε') : Prog S ε α → Prog S ε' α
  | .pure a => .pure a
  | .fail err => .fail (f err)
  | .panic => .panic
  | .call op next => .call op fun answer => (next answer).mapError f

def run (step : (op : S.Op) → σ → S.Answer op × σ) : Prog S ε α → σ → Outcome ε α × σ
  | .pure a, s => (.done a, s)
  | .fail err, s => (.fail err, s)
  | .panic, s => (.panic, s)
  | .call op next, s => (next (step op s).1).run step (step op s).2

def All (P : S.Op → Prop) : Prog S ε α → Prop
  | .call op next => P op ∧ ∀ answer, (next answer).All P
  | _ => True

def FailsWith (Q : ε → Prop) : Prog S ε α → Prop
  | .fail err => Q err
  | .call _ next => ∀ answer, (next answer).FailsWith Q
  | _ => True

@[simp]
theorem run_pure (a : α)
    : (Pure.pure a : Prog S ε α).run step s = (.done a, s) := rfl

@[simp]
theorem run_fail (err : ε)
    : (fail err : Prog S ε α).run step s = (.fail err, s) := rfl

variable {p : Prog S ε α}

theorem run_ofOption_done
    : (ofOption err o : Prog S ε α).run step s = (.done a, s') ↔ o = some a ∧ s' = s := by
  cases o with
  | none => simp [ofOption]
  | some a' => simp [ofOption, run, eq_comm]

theorem run_ofExcept_done
    : (ofExcept o : Prog S ε α).run step s = (.done a, s') ↔ o = .ok a ∧ s' = s := by
  cases o with
  | error err => simp [ofExcept]
  | ok a' => simp [ofExcept, run, eq_comm]

theorem run_ofError_done
    : (ofError o : Prog S ε Unit).run step s = (.done u, s') ↔ o = none ∧ s' = s := by
  cases o with
  | none => simp [ofError, run, eq_comm]
  | some err => simp [ofError]

variable {f : α → Prog S ε β}

theorem run_bind_done (h : (p >>= f).run step s = (.done b, s'))
    : ∃ a s₁, p.run step s = (.done a, s₁) ∧ (f a).run step s₁ = (.done b, s') := by
  induction p generalizing s with
  | pure a => exact ⟨a, s, rfl, h⟩
  | fail err => cases h
  | panic => cases h
  | call op next ih => exact ih (step op s).1 h

theorem run_bind_of_done (h : p.run step s = (.done a, s'))
    : (p >>= f).run step s = (f a).run step s' := by
  induction p generalizing s with
  | pure a' =>
    cases h
    rfl
  | fail err => cases h
  | panic => cases h
  | call op next ih => exact ih (step op s).1 h

theorem run_bind_of_fail (h : p.run step s = (.fail err, s'))
    : (p >>= f).run step s = (.fail err, s') := by
  induction p generalizing s with
  | pure a => cases h
  | fail err =>
    cases h
    rfl
  | panic => cases h
  | call op next ih => exact ih (step op s).1 h

theorem run_mapError_done {f : ε → ε'}
    : (p.mapError f).run step s = (.done a, s') ↔ p.run step s = (.done a, s') := by
  induction p generalizing s with
  | pure a' => simp [mapError, run]
  | fail err => simp [mapError, run]
  | panic => simp [mapError, run]
  | call op next ih => exact ih (step op s).1

theorem All.bind (hp : p.All P) (hf : ∀ a, (f a).All P) : (p >>= f).All P := by
  induction p with
  | pure a => exact hf a
  | fail err => trivial
  | panic => trivial
  | call op next ih => exact ⟨hp.1, fun answer => ih answer (hp.2 answer)⟩

theorem All.mapError (hp : p.All P) (f : ε → ε') : (p.mapError f).All P := by
  induction p with
  | pure a => trivial
  | fail err => trivial
  | panic => trivial
  | call op next ih => exact ⟨hp.1, fun answer => ih answer (hp.2 answer)⟩

theorem All.ofOption (err : ε) (o : Option α) : (ofOption err o : Prog S ε α).All P := by
  cases o <;> exact True.intro

theorem All.ofExcept (o : Except ε α) : (ofExcept o : Prog S ε α).All P := by
  cases o <;> exact True.intro

theorem All.ofError (o : Option ε) : (ofError o : Prog S ε Unit).All P := by
  cases o <;> exact True.intro

theorem All.trivial (p : Prog S ε α) : p.All fun _ => True := by
  induction p with
  | pure a => exact True.intro
  | fail err => exact True.intro
  | panic => exact True.intro
  | call op next ih => exact ⟨True.intro, ih⟩

theorem run_induction {I : σ → Prop} (hstep : ∀ op s, P op → I s → I (step op s).2)
    (hp : p.All P) (h : I s)
    : I (p.run step s).2 := by
  induction p generalizing s with
  | pure a => exact h
  | fail err => exact h
  | panic => exact h
  | call op next ih => exact ih _ (hp.2 _) (hstep op s hp.1 h)

theorem FailsWith.bind (hp : p.FailsWith Q) (hf : ∀ a, (f a).FailsWith Q)
    : (p >>= f).FailsWith Q := by
  induction p with
  | pure a => exact hf a
  | fail err => exact hp
  | panic => trivial
  | call op next ih => exact fun answer => ih answer (hp answer)

theorem FailsWith.mapError (f : ε → ε') (p : Prog S ε α) (hf : ∀ err, Q' (f err))
    : (p.mapError f).FailsWith Q' := by
  induction p with
  | pure a => trivial
  | fail err => exact hf err
  | panic => trivial
  | call op next ih => exact ih

theorem FailsWith.mapErrorTo (hp : p.FailsWith Q) (f : ε → ε') (hf : ∀ err, Q err → Q' (f err))
    : (p.mapError f).FailsWith Q' := by
  induction p with
  | pure a => trivial
  | fail err => exact hf err hp
  | panic => trivial
  | call op next ih => exact fun answer => ih answer (hp answer)

theorem FailsWith.ofOption (o : Option α) (h : Q err)
    : (ofOption err o : Prog S ε α).FailsWith Q := by
  cases o with
  | none => exact h
  | some a => trivial

theorem FailsWith.run (hp : p.FailsWith Q) (h : p.run step s = (.fail err, s')) : Q err := by
  induction p generalizing s with
  | pure a => cases h
  | fail err' =>
    cases h
    exact hp
  | panic => cases h
  | call op next ih => exact ih _ (hp _) h

end Prog

end Program

namespace Fallible

variable {ε α β : Type}

theorem bind_eq_ok {f : α → Except ε β} (h : (x >>= f) = .ok b)
    : ∃ a, x = .ok a ∧ f a = .ok b := by
  cases x with
  | error err => cases h
  | ok a => exact ⟨a, rfl, h⟩

theorem map_eq_ok {x : Except ε α} (h : x.map f = .ok b)
    : ∃ a, x = .ok a ∧ f a = b := by
  cases x with
  | error err => cases h
  | ok a => exact ⟨a, rfl, Except.ok.inj h⟩

end Fallible
