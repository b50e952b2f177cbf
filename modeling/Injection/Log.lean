/-! # Computations that keep a log

A `Logged` computation yields the entries it wrote and a result.  Entries written before a failure
stay in the log; nothing is written after one.  The result of a sequence depends on the results of
its parts alone, never on what they logged.

The entries are those that the program logs, in the order of the calls; the transform of a source
and all that it calls are such computations.
-/

namespace Injection

/-- How important an entry is. -/
inductive Level where
  | debug
  | info
  | warning
  | error
deriving DecidableEq, Repr

def Level.name : Level → String
  | .debug => "DEBUG"
  | .info => "INFO"
  | .warning => "WARNING"
  | .error => "ERROR"

/-- One entry of a log. -/
structure Entry where
  level : Level
  message : String
deriving DecidableEq, Repr

/-- The line of an entry. -/
def Entry.line (e : Entry) : String := e.level.name ++ " " ++ e.message

/-- The entries written by a computation, and its result. -/
structure Logged (ε α : Type) where
  log : List Entry
  result : Except ε α

namespace Logged

variable {ε ε' α β : Type}

instance : Monad (Logged ε) where
  pure a := ⟨[], .ok a⟩
  bind x f :=
    match x.result with
    | .error e => ⟨x.log, .error e⟩
    | .ok a => ⟨x.log ++ (f a).log, (f a).result⟩

/-- A computation that fails at once. -/
def fail (e : ε) : Logged ε α := ⟨[], .error e⟩

/-- Write one entry. -/
def write (level : Level) (message : String) : Logged ε Unit := ⟨[⟨level, message⟩], .ok ()⟩

/-- A result without entries. -/
def ofExcept (r : Except ε α) : Logged ε α := ⟨[], r⟩

/-- Rename the failures. -/
def mapError (f : ε → ε') (x : Logged ε α) : Logged ε' α := ⟨x.log, x.result.mapError f⟩

@[simp] theorem result_pure (a : α) : (pure a : Logged ε α).result = .ok a := rfl

@[simp] theorem log_pure (a : α) : (pure a : Logged ε α).log = [] := rfl

@[simp] theorem result_bind (x : Logged ε α) (f : α → Logged ε β) :
    (x >>= f).result = x.result.bind fun a => (f a).result := by
  show (match x.result with
    | .error e => (⟨x.log, .error e⟩ : Logged ε β)
    | .ok a => ⟨x.log ++ (f a).log, (f a).result⟩).result = _
  cases x.result <;> rfl

@[simp] theorem result_map (f : α → β) (x : Logged ε α) :
    (f <$> x).result = x.result.map f := by
  show (x >>= fun a => pure (f a)).result = _
  rw [result_bind]
  cases x.result <;> rfl

@[simp] theorem result_fail (e : ε) : (fail e : Logged ε α).result = .error e := rfl

@[simp] theorem result_write (l : Level) (m : String) :
    (write l m : Logged ε Unit).result = .ok () := rfl

@[simp] theorem result_mapError (f : ε → ε') (x : Logged ε α) :
    (x.mapError f).result = x.result.mapError f := rfl

@[simp] theorem result_ofExcept (r : Except ε α) : (ofExcept r).result = r := rfl

theorem bind_of_error {x : Logged ε α} {e : ε} (h : x.result = .error e) (f : α → Logged ε β) :
    x >>= f = ⟨x.log, .error e⟩ := by
  obtain ⟨log, result⟩ := x
  cases h
  rfl

theorem bind_of_ok {x : Logged ε α} {a : α} (h : x.result = .ok a) (f : α → Logged ε β) :
    x >>= f = ⟨x.log ++ (f a).log, (f a).result⟩ := by
  obtain ⟨log, result⟩ := x
  cases h
  rfl

/-- Sequences may be regrouped. -/
instance : LawfulMonad (Logged ε) :=
  LawfulMonad.mk' (Logged ε)
    (fun {α} x => by
      show x >>= pure = x
      cases h : x.result with
      | error e => rw [bind_of_error h, ← h]
      | ok a => rw [bind_of_ok h, log_pure, result_pure, List.append_nil, ← h])
    (fun {α β} a f => by
      rw [bind_of_ok (result_pure a), log_pure, List.nil_append])
    (fun {α β γ} x f g => by
      cases h : x.result with
      | error e => rw [bind_of_error h, bind_of_error h, bind_of_error rfl]
      | ok a =>
          rw [bind_of_ok h, bind_of_ok h]
          cases hf : (f a).result with
          | error e => rw [bind_of_error hf, bind_of_error rfl]
          | ok b => rw [bind_of_ok hf, bind_of_ok rfl, List.append_assoc])

/-- A sequence succeeds exactly when its parts do, one after the other. -/
theorem result_bind_eq_ok_iff (x : Logged ε α) (f : α → Logged ε β) (b : β) :
    (x >>= f).result = .ok b ↔ ∃ a, x.result = .ok a ∧ (f a).result = .ok b := by
  rw [result_bind]
  cases h : x.result with
  | error e => simp [Except.bind]
  | ok a => simp [Except.bind]

end Logged

end Injection
