/-!
# Programs that may fail

A `Task` reads and changes a state and may fail. The changes it made before it
failed remain.

`Ends m s returns fails` says what holds where `m`, started in `s`, returns and where
it fails. The rules compute it from the parts of a program.

* `ends_bind`: what follows starts where the first part returns.
* `Ends.mono`: weaker conditions.
* `Ends.bind`: a sequence, from a condition that holds in between.
-/

namespace NextDb.Fallible

variable {σ ε α β : Type}

abbrev Task (σ ε α : Type) := ExceptT ε (StateM σ) α

/-- What a task returns, and the state it leaves. -/
def exec (m : Task σ ε α) (s : σ) : Except ε α × σ := (ExceptT.run m).run s

/-- A check does not change the state. -/
def check (outcome : Except ε α) : Task σ ε α := ExceptT.mk (pure outcome)

/-- A change cannot fail. -/
def change (f : σ → σ) : Task σ ε Unit := modify f

/-- What is read of the state. -/
def read (f : σ → α) : Task σ ε α := do return f (← get)

/-- How the computation ends in the state. -/
def Ends (m : Task σ ε α) (s : σ) (returns : α → σ → Prop) (fails : ε → σ → Prop) : Prop :=
  match exec m s with
  | (.ok a, t) => returns a t
  | (.error e, t) => fails e t

variable {m : Task σ ε α} {s t : σ} {returns : α → σ → Prop} {fails : ε → σ → Prop} {a : α}
    {fails' : ε → σ → Prop}

@[simp] theorem ends_pure : Ends (pure a : Task σ ε α) s returns fails ↔ returns a s := .rfl

@[simp] theorem ends_check_ok : Ends (check (.ok a) : Task σ ε α) s returns fails ↔ returns a s :=
  .rfl

@[simp] theorem ends_check_error {e : ε} : Ends (check (.error e) : Task σ ε α) s returns fails ↔
    fails e s := .rfl

@[simp] theorem ends_change {f : σ → σ} {returns : Unit → σ → Prop} :
    Ends (change f) s returns fails ↔ returns () (f s) := .rfl

@[simp] theorem ends_read {f : σ → α} : Ends (read f) s returns fails ↔ returns (f s) s := .rfl

theorem exec_bind (m : Task σ ε α) (f : α → Task σ ε β) (s : σ) :
    exec (m >>= f) s = match exec m s with
      | (.ok a, t) => exec (f a) t
      | (.error e, t) => (.error e, t) := by
  simp only [exec, ExceptT.run_bind, StateT.run_bind]
  generalize (ExceptT.run m).run s = r
  obtain ⟨_ | _, _⟩ := r <;> rfl

@[simp] theorem exec_pure : exec (pure a : Task σ ε α) s = (.ok a, s) := rfl

@[simp] theorem exec_check {outcome : Except ε α} : exec (check outcome) s = (outcome, s) := rfl

@[simp] theorem exec_change {f : σ → σ} : exec (change f : Task σ ε Unit) s = (.ok (), f s) := rfl

@[simp] theorem exec_get : exec (get : Task σ ε σ) s = (.ok s, s) := rfl

@[simp] theorem ends_bind {f : α → Task σ ε β} {returns : β → σ → Prop} :
    Ends (m >>= f) s returns fails ↔ Ends m s (fun a t => Ends (f a) t returns fails) fails := by
  unfold Ends
  rw [exec_bind]
  generalize exec m s = r
  obtain ⟨_ | _, _⟩ := r <;> rfl

@[simp] theorem ends_map {f : α → β} {returns : β → σ → Prop} :
    Ends (f <$> m) s returns fails ↔ Ends m s (fun a t => returns (f a) t) fails := by
  rw [← bind_pure_comp, ends_bind]
  rfl

theorem Ends.mono {returns' : α → σ → Prop} (h : Ends m s returns fails)
    (hr : ∀ a t, returns a t → returns' a t)
    (hf : ∀ e t, fails e t → fails' e t) : Ends m s returns' fails' := by
  unfold Ends at h ⊢
  split at h
  · exact hr _ _ h
  · exact hf _ _ h

theorem Ends.bind {f : α → Task σ ε β} {returns' : β → σ → Prop} (h : Ends m s returns fails)
    (hr : ∀ a t, returns a t → Ends (f a) t returns' fails') (hf : ∀ e t, fails e t → fails' e t) :
    Ends (m >>= f) s returns' fails' :=
  ends_bind.mpr (h.mono hr hf)

theorem Ends.and {returns' : α → σ → Prop} (h : Ends m s returns fails)
    (h' : Ends m s returns' fails') :
    Ends m s (fun a t => returns a t ∧ returns' a t) fun e t => fails e t ∧ fails' e t := by
  unfold Ends at h h' ⊢
  split
  · next he => rw [he] at h h'; exact ⟨h, h'⟩
  · next he => rw [he] at h h'; exact ⟨h, h'⟩

theorem Ends.check {outcome : Except ε α} (hr : ∀ a, outcome = .ok a → returns a s)
    (hf : ∀ e, outcome = .error e → fails e s) : Ends (check outcome) s returns fails := by
  cases outcome with
  | ok a => exact hr a rfl
  | error e => exact hf e rfl

/-- What holds where a task fails holds of the state that a failure leaves. -/
theorem Ends.of_error {e : ε} (h : Ends m s returns fails) (he : exec m s = (.error e, t)) :
    fails e t := by
  rwa [Ends, he] at h

theorem Ends.of_ok (h : Ends m s returns fails) (he : exec m s = (.ok a, t)) : returns a t := by
  rwa [Ends, he] at h

end NextDb.Fallible
